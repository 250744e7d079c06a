import Mathlib.Data.List.DropRight
import LetLang.Proofs.Trees
/-!
# Renderings determine trees

Both renderings of an expression can be read back, with anything behind them that may follow: the
label ends at the next mark, the children stand one after the other, each between marks of its own,
and what stands behind the last of them tells that there are no more. So no two expressions share a
rendering, and what an expression lacks can be told from what another one has.
-/
namespace LetLang.Expr

/-! ### Labels in a text -/

/-- The text begins with a mark after at most one blank, or is empty. -/
def Bounds (cs : List Char) : Prop :=
  (∀ c ∈ cs.head?, c ∈ marks) ∨ ∃ rest, cs = ' ' :: rest ∧ ∀ c ∈ rest.head?, c ∈ marks

theorem takeWhile_of_head? {cs : List Char} (h : ∀ c ∈ cs.head?, c ∈ marks) :
    cs.takeWhile (· ∉ marks) = [] := by
  cases cs with
  | nil => rfl
  | cons c cs => simp [h c rfl]

/-- The label that a text begins with is what comes before the first mark, blanks at its end aside. -/
theorem Unmarked.eq_rdropWhile {label rest : List Char} (h : Unmarked label) (hrest : Bounds rest) :
    label = ((label ++ rest).takeWhile (· ∉ marks)).rdropWhile (· = ' ') := by
  have hself : label.rdropWhile (· = ' ') = label := by
    rw [List.rdropWhile_eq_self_iff]
    intro hne
    simpa [List.getLast?_eq_some_getLast hne] using h.last
  rw [List.takeWhile_append_of_pos (by simpa using h.notMem)]
  rcases hrest with hmark | ⟨rest, rfl, hmark⟩
  · rw [takeWhile_of_head? hmark, List.append_nil, hself]
  · have hblank : ' ' ∉ marks := by decide
    rw [List.takeWhile_cons_of_pos (by simpa using hblank), takeWhile_of_head? hmark,
      List.rdropWhile_concat_pos _ _ _ (by simp), hself]

theorem Unmarked.append_inj {label label' rest rest' : List Char} (h : Unmarked label)
    (h' : Unmarked label') (hrest : Bounds rest) (hrest' : Bounds rest')
    (heq : label ++ rest = label' ++ rest') : label = label' ∧ rest = rest' := by
  have hlabel : label = label' := by
    rw [h.eq_rdropWhile hrest, heq, ← h'.eq_rdropWhile hrest']
  subst hlabel
  exact ⟨rfl, List.append_cancel_left heq⟩

/-! ### Children in a text -/

/-- Texts of the two expressions, with something behind them that begins as `ends` allows, tell the
expressions and what is behind them. -/
def Told (ends : List Char) (text : Expr → Option String) (a b : Expr) : Prop :=
  ∀ s t u v, text a = some s → text b = some t → (∀ c ∈ u.head?, c ∈ ends) →
    (∀ c ∈ v.head?, c ∈ ends) → s.toList ++ u = t.toList ++ v → a = b ∧ u = v

/-- The texts of children, each after a separator. -/
def separatedText (separator : List Char) (texts : List String) : List Char :=
  texts.flatMap fun text => separator ++ text.toList

/-- Children that are told one by one are told together, if what comes behind the last of them
begins in another way than what separates them. -/
theorem children_inj {ends glue : List Char} {text : Expr → Option String} {first stop : Char}
    (hfirst : first ∈ ends) (hstop : stop ∈ ends) (hne : first ≠ stop) {as bs : List Expr}
    (h : ∀ a ∈ as, ∀ b ∈ bs, Told ends text a b) {ss ts : List String}
    (hs : as.map text = ss.map some) (ht : bs.map text = ts.map some) {u v : List Char}
    (heq : separatedText (first :: glue) ss ++ stop :: u =
      separatedText (first :: glue) ts ++ stop :: v) : as = bs ∧ u = v := by
  have hbegins (texts : List String) (rest : List Char) :
      ∀ c ∈ (separatedText (first :: glue) texts ++ stop :: rest).head?, c ∈ ends := by
    cases texts <;> simp [separatedText, hfirst, hstop]
  induction as generalizing bs ss ts with
  | nil =>
    obtain rfl : ss = [] := by simpa using hs.symm
    cases bs with
    | nil =>
      obtain rfl : ts = [] := by simpa using ht.symm
      simpa [separatedText] using heq
    | cons b bs =>
      obtain ⟨t, ts, rfl⟩ : ∃ t others, ts = t :: others := by
        cases ts <;> simp at ht ⊢
      simp [separatedText, Ne.symm hne] at heq
  | cons a as ih =>
    obtain ⟨s, ss, rfl⟩ : ∃ s others, ss = s :: others := by
      cases ss <;> simp at hs ⊢
    cases bs with
    | nil =>
      obtain rfl : ts = [] := by simpa using ht.symm
      simp [separatedText, hne] at heq
    | cons b bs =>
      obtain ⟨t, ts, rfl⟩ : ∃ t others, ts = t :: others := by
        cases ts <;> simp at ht ⊢
      simp only [List.map_cons, List.cons.injEq] at hs ht
      have hcons (text : String) (texts : List String) (rest : List Char) :
          separatedText (first :: glue) (text :: texts) ++ rest =
            first :: glue ++ (text.toList ++ (separatedText (first :: glue) texts ++ rest)) := by
        simp [separatedText]
      rw [hcons, hcons] at heq
      obtain ⟨rfl, hrest⟩ := h a (by simp) b (by simp) s t _ _ hs.1 ht.1 (hbegins ss u)
        (hbegins ts v) (List.append_cancel_left heq)
      have hothers : ∀ a ∈ as, ∀ b ∈ bs, Told ends text a b :=
        fun a ha b hb => h a (List.mem_cons_of_mem _ ha) b (List.mem_cons_of_mem _ hb)
      obtain ⟨rfl, rfl⟩ := ih hothers hs.2 ht.2 hrest
      exact ⟨rfl, rfl⟩

theorem childTexts?_eq_some {children : List Expr} (h : ∀ child ∈ children, child.isDatum = false)
    {text : Expr → Option String} {texts : List String}
    (htexts : childTexts? (children.map fun child => (child, text child)) = some texts) :
    children.map text = texts.map some := by
  induction children generalizing texts with
  | nil =>
    cases htexts
    rfl
  | cons child children ih =>
    rw [List.forall_mem_cons] at h
    rw [List.map_cons, childTexts?.eq_def] at htexts
    simp only [h.1, Bool.false_eq_true, if_false] at htexts
    split at htexts
    · next first others hfirst hothers =>
      cases htexts
      rw [List.map_cons, List.map_cons, hfirst, ih h.2 hothers]
    · cases htexts

theorem toList_intercalate_cons (separator first : String) (rest : List String) :
    (separator.intercalate (first :: rest)).toList =
      first.toList ++ separatedText separator.toList rest := by
  rw [String.toList_intercalate]
  induction rest generalizing first with
  | nil => simp [separatedText]
  | cons second rest ih =>
    rw [List.map_cons, List.map_cons, List.intercalate_cons_cons, ← List.map_cons, ih second]
    simp [separatedText]

theorem Named.map_eq_of_childTexts? {expr : Expr} (h : expr.Named) {text : Expr → Option String}
    {texts : List String}
    (htexts : childTexts? (expr.children.map fun child => (child, text child)) = some texts) :
    expr.children.map text = texts.map some :=
  childTexts?_eq_some (fun _ hchild => (h.of_mem_children hchild).isDatum_eq_false) htexts

/-! ### The bracketed line -/

theorem Named.exists_line {expr : Expr} (h : expr.Named) {text : String}
    (htext : expr.render? = some text) :
    ∃ label texts, expr.label? = some label ∧ expr.children.map render? = texts.map some ∧
      text.toList = '[' :: (label.toList ++ (separatedText [' '] texts ++ [']'])) := by
  have hrender : expr.render? =
      bracketed expr.label? (expr.children.map fun child => (child, child.render?)) := by
    cases expr with
    | datum => exact absurd h id
    | _ => rfl
  rw [hrender, bracketed.eq_def] at htext
  split at htext
  · next label texts hlabel htexts =>
    cases htext
    refine ⟨label, texts, hlabel, h.map_eq_of_childTexts? htexts, ?_⟩
    rw [String.toList_append, String.toList_append, toList_intercalate_cons]
    simp
  · cases htext

/-- What follows the label in a bracketed line tells where the label ends. -/
theorem bounds_line {children : List Expr} (h : ∀ child ∈ children, child.Named)
    {texts : List String} (htexts : children.map render? = texts.map some) (rest : List Char) :
    Bounds (separatedText [' '] texts ++ ']' :: rest) := by
  cases texts with
  | nil => exact .inl (by simp [separatedText, marks])
  | cons first others =>
    have hmem : some first ∈ children.map render? := by simp [htexts]
    obtain ⟨child, hchild, hfirst⟩ := List.mem_map.1 hmem
    obtain ⟨_, _, -, -, hline⟩ := (h child hchild).exists_line hfirst
    exact .inr ⟨first.toList ++ (separatedText [' '] others ++ ']' :: rest),
      by simp [separatedText], by simp [hline, marks]⟩

/-- Bracketed lines can be read back. -/
theorem Named.told_line {a b : Expr} (ha : a.Named) (hb : b.Named) :
    Told [' ', ']'] render? a b := by
  induction a using children_induction generalizing b with
  | step a ih =>
    intro s t u v hs ht _ _ heq
    obtain ⟨label, texts, hlabel, htexts, hline⟩ := ha.exists_line hs
    obtain ⟨label', texts', hlabel', htexts', hline'⟩ := hb.exists_line ht
    rw [hline, hline'] at heq
    simp only [List.cons_append, List.append_assoc, List.nil_append, List.cons.injEq,
      true_and] at heq
    obtain ⟨hsame, hrest⟩ := (unmarked_label ha hlabel).append_inj (unmarked_label hb hlabel')
      (bounds_line (fun _ => ha.of_mem_children) htexts u)
      (bounds_line (fun _ => hb.of_mem_children) htexts' v) heq
    obtain ⟨hchildren, rfl⟩ := children_inj (by simp) (by simp) (by decide)
      (fun child hchild other hother =>
        ih child hchild (ha.of_mem_children hchild) (hb.of_mem_children hother)) htexts htexts' hrest
    obtain rfl := String.toList_inj.1 hsame
    exact ⟨ha.eq_of_label_eq hb hlabel hlabel' hchildren, rfl⟩

/-! ### The indented block -/

/-- What stands behind the label in an indented block. -/
def inParentheses (depth : Nat) : List String → List Char
  | [] => []
  | texts =>
    '(' :: '\n' :: ((",\n".intercalate texts).toList ++ '\n' :: ((indent depth).toList ++ [')']))

theorem Named.exists_block {expr : Expr} (h : expr.Named) {depth : Nat} {text : String}
    (htext : expr.display? depth = some text) :
    ∃ label texts, expr.label? = some label ∧
      expr.children.map (display? (depth + 1)) = texts.map some ∧
      text.toList = (indent depth).toList ++ (label.toList ++ inParentheses depth texts) := by
  have hdisplay : expr.display? depth = block depth expr.label?
      (expr.children.map fun child => (child, child.display? (depth + 1))) := by
    cases expr with
    | datum => exact absurd h id
    | _ => rfl
  rw [hdisplay, block.eq_def] at htext
  split at htext
  · next label hlabel htexts =>
    cases htext
    exact ⟨label, [], hlabel, h.map_eq_of_childTexts? htexts, by simp [inParentheses]⟩
  · next label texts hne hlabel htexts =>
    cases htext
    refine ⟨label, texts, hlabel, h.map_eq_of_childTexts? htexts, ?_⟩
    cases texts with
    | nil => exact absurd rfl hne
    | cons first others => simp [inParentheses]
  · cases htext

/-- What follows the label in an indented block tells where the label ends. -/
theorem bounds_inParentheses (depth : Nat) (texts : List String) {rest : List Char}
    (hrest : ∀ c ∈ rest.head?, c ∈ [',', '\n']) : Bounds (inParentheses depth texts ++ rest) := by
  have hmarks : ∀ c ∈ [',', '\n'], c ∈ marks := by simp [marks]
  cases texts with
  | nil => exact .inl fun c hc => hmarks c (hrest c hc)
  | cons first others => exact .inl (by simp [inParentheses, marks])

/-- What stands behind the label tells the children, and what follows the block. -/
theorem inParentheses_inj {depth : Nat} {as bs : List Expr}
    (h : ∀ a ∈ as, ∀ b ∈ bs, Told [',', '\n'] (display? (depth + 1)) a b) {ss ts : List String}
    (hs : as.map (display? (depth + 1)) = ss.map some)
    (ht : bs.map (display? (depth + 1)) = ts.map some) {u v : List Char}
    (hu : ∀ c ∈ u.head?, c ∈ [',', '\n']) (hv : ∀ c ∈ v.head?, c ∈ [',', '\n'])
    (heq : inParentheses depth ss ++ u = inParentheses depth ts ++ v) : as = bs ∧ u = v := by
  -- A separator put before the first child, too, makes all children alike.
  have hcons (first : String) (others : List String) (rest : List Char) :
      ',' :: '\n' :: (inParentheses depth (first :: others) ++ rest).drop 2 =
        separatedText [',', '\n'] (first :: others) ++
          '\n' :: ((indent depth).toList ++ ')' :: rest) := by
    rw [inParentheses, toList_intercalate_cons]
    · simp [separatedText]
    · simp
  cases ss with
  | nil =>
    obtain rfl : as = [] := by simpa using hs
    cases ts with
    | nil =>
      obtain rfl : bs = [] := by simpa using ht
      exact ⟨rfl, heq⟩
    | cons t ts =>
      obtain rfl : u = inParentheses depth (t :: ts) ++ v := heq
      simp [inParentheses] at hu
  | cons s ss =>
    cases ts with
    | nil =>
      obtain rfl : inParentheses depth (s :: ss) ++ u = v := heq
      simp [inParentheses] at hv
    | cons t ts =>
      have hseparated := congrArg (fun cs => ',' :: '\n' :: cs.drop 2) heq
      simp only [hcons] at hseparated
      obtain ⟨rfl, hrest⟩ := children_inj (by simp) (by simp) (by decide) h hs ht hseparated
      exact ⟨rfl, by simpa using hrest⟩

/-- Indented blocks can be read back. -/
theorem Named.told_block {a b : Expr} (ha : a.Named) (hb : b.Named) (depth : Nat) :
    Told [',', '\n'] (display? depth) a b := by
  induction a using children_induction generalizing b depth with
  | step a ih =>
    intro s t u v hs ht hu hv heq
    obtain ⟨label, texts, hlabel, htexts, hblock⟩ := ha.exists_block hs
    obtain ⟨label', texts', hlabel', htexts', hblock'⟩ := hb.exists_block ht
    rw [hblock, hblock', List.append_assoc, List.append_assoc, List.append_assoc,
      List.append_assoc] at heq
    obtain ⟨hsame, hrest⟩ := (unmarked_label ha hlabel).append_inj (unmarked_label hb hlabel')
      (bounds_inParentheses depth texts hu) (bounds_inParentheses depth texts' hv)
      (List.append_cancel_left heq)
    obtain ⟨hchildren, rfl⟩ := inParentheses_inj
      (fun child hchild other hother =>
        ih child hchild (ha.of_mem_children hchild) (hb.of_mem_children hother) (depth + 1))
      htexts htexts' hu hv hrest
    obtain rfl := String.toList_inj.1 hsame
    exact ⟨ha.eq_of_label_eq hb hlabel hlabel' hchildren, rfl⟩

/-! ### Renderings and trees -/

theorem takeWhile_param {param : Option String} (h : NamedParam param) (rest : List Char) :
    ((param.getD "").toList ++ '|' :: rest).takeWhile (· ≠ '|') = (param.getD "").toList := by
  have hparts : ∀ c ∈ (param.getD "").toList, c ≠ '|' := by
    cases param with
    | none => simp
    | some name =>
      rintro c hc rfl
      have hpart := (Kind.isWordPart_of_mem_language (h name rfl) (.inr rfl)).2 _ hc
      revert hpart
      decide
  rw [List.takeWhile_append_of_pos (by simpa using hparts)]
  simp

/-- The text of a closure tells its parameter and its body. -/
theorem closure_inj {param param' : Option String} {body body' : Expr} {scope scope' : ScopeId}
    (hparam : NamedParam param) (hparam' : NamedParam param') (hbody : body.Named)
    (hbody' : body'.Named) {text : String}
    (htext : (Value.closure param body scope).text? = some text)
    (htext' : (Value.closure param' body' scope').text? = some text) :
    param = param' ∧ body = body' := by
  rw [Value.text?, Option.map_eq_some_iff] at htext htext'
  obtain ⟨line, hline, rfl⟩ := htext
  obtain ⟨line', hline', hsame⟩ := htext'
  have hbar : "| => ".toList = '|' :: " => ".toList := by decide
  have hchars := (String.toList_inj.2 hsame).symm
  simp only [String.toList_append, List.append_assoc, hbar, List.cons_append] at hchars
  have hcut := List.append_cancel_left hchars
  have hname := congrArg (List.takeWhile (· ≠ '|')) hcut
  rw [takeWhile_param hparam, takeWhile_param hparam', String.toList_inj] at hname
  have hsameLine : line = line' := by simpa [hname, String.toList_inj] using hcut
  subst hsameLine
  have hend : ∀ c ∈ ([] : List Char).head?, c ∈ [' ', ']'] := by simp
  exact ⟨hparam.eq_of_getD_eq hparam' hname,
    (hbody.told_line hbody' _ _ [] [] hline hline' hend hend rfl).1⟩

/-- The first expression lacks what the second has: the body of a `let`, the alternative of a
conditional, or the parameter of a function. -/
inductive Lacks : Expr → Expr → Prop where
  | body (name name' : String) (bound bound' body' : Expr) :
    Lacks (define name bound) (letIn name' bound' body')
  | alternative (cond cond' yes yes' no' : Expr) :
    Lacks (ifThen cond yes) (ifThenElse cond' yes' no')
  | param (name' : String) (body body' : Expr) : Lacks (fn none body) (fn (some name') body')

theorem Lacks.ne {a b : Expr} (h : Lacks a b) : a ≠ b := by
  cases h <;> simp

/-- Either rendering tells the expression. So does either rendering tell an expression that lacks a
part from one that has it, and a closure's text tells the closure's parameter and its body. -/
theorem renderings_determine_trees {a b : Expr} (ha : a.Named) (hb : b.Named) :
    (∀ text, a.render? = some text → b.render? = some text → a = b) ∧
    (∀ depth text, a.display? depth = some text → b.display? depth = some text → a = b) ∧
    (Lacks a b → ∀ text depth,
      (a.render? = some text → b.render? ≠ some text) ∧
      (a.display? depth = some text → b.display? depth ≠ some text)) ∧
    (∀ param param' scope scope' text, NamedParam param → NamedParam param' →
      (Value.closure param a scope).text? = some text →
      (Value.closure param' b scope').text? = some text → param = param' ∧ a = b) := by
  have hend (ends : List Char) : ∀ c ∈ ([] : List Char).head?, c ∈ ends := by simp
  have hline : ∀ text, a.render? = some text → b.render? = some text → a = b :=
    fun text h h' => (ha.told_line hb text text [] [] h h' (hend _) (hend _) rfl).1
  have hblock : ∀ depth text, a.display? depth = some text → b.display? depth = some text → a = b :=
    fun depth text h h' => (ha.told_block hb depth text text [] [] h h' (hend _) (hend _) rfl).1
  refine ⟨hline, hblock, fun hlacks text depth => ⟨?_, ?_⟩, ?_⟩
  · exact fun h h' => hlacks.ne (hline text h h')
  · exact fun h h' => hlacks.ne (hblock depth text h h')
  · exact fun _ _ _ _ _ hparam hparam' h h' => closure_inj hparam hparam' ha hb h h'

/-- A definition and a `let` with a body are told apart on one line, in a block and as the body of a
closure. -/
theorem renderings_determine_trees_define_letIn :
    let a := define "x" (ident "y")
    let b := letIn "x" (ident "y") unit
    a.Named ∧ b.Named ∧
    a.render? = some "[Let x [Ident y]]" ∧ b.render? = some "[Let x [Ident y] [Unit]]" ∧
    b.render? ≠ some "[Let x [Ident y]]" ∧
    a.display? 0 = some "Let x(\n    Ident y\n)" ∧
    b.display? 0 = some "Let x(\n    Ident y,\n    Unit\n)" ∧
    b.display? 0 ≠ some "Let x(\n    Ident y\n)" ∧
    (Value.closure none a 0).text? = some "<closure || => [Let x [Ident y]]>" ∧
    ∀ param scope, NamedParam param →
      (Value.closure param b scope).text? ≠ some "<closure || => [Let x [Ident y]]>" := by
  intro a b
  have hx : IsIdentifier "x" := by decide
  have hy : IsIdentifier "y" := by decide
  have ha : a.Named := ⟨hx, hy⟩
  have hb : b.Named := ⟨hx, hy, trivial⟩
  have hline : a.render? = some "[Let x [Ident y]]" := by decide +kernel
  have hblock : a.display? 0 = some "Let x(\n    Ident y\n)" := by decide +kernel
  have hclosure : (Value.closure none a 0).text? = some "<closure || => [Let x [Ident y]]>" := by
    decide +kernel
  obtain ⟨-, -, hlacks, hclosures⟩ := renderings_determine_trees ha hb
  have hother := fun text => hlacks (.body _ _ _ _ _) text 0
  refine ⟨ha, hb, hline, by decide +kernel, (hother _).1 hline, hblock, by decide +kernel,
    (hother _).2 hblock, hclosure, ?_⟩
  intro param scope hparam htext
  have hnone : NamedParam none := by simp [NamedParam]
  have hsame : a = b := (hclosures none param 0 scope _ hnone hparam hclosure htext).2
  exact absurd hsame (by decide)

end LetLang.Expr
