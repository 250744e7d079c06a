import LetLang.Proofs.Budget
import LetLang.Proofs.Numerals
/-!
# Arithmetic

Expressions of literals, operators and conditionals stand for a computation with unbounded integers
and truth values, which no scope has a part in. The operations of the computation come in an order:
the operands of an operator, the left one first, before the operator, and a condition before the one
branch that it selects. The first operation that has no value ends it.
-/
namespace LetLang

/-- The expression is made of literals, operators and conditionals only. -/
def Expr.isArithmetic : Expr → Bool
  | .unit | .int _ | .bool _ => true
  | .binary _ left right => left.isArithmetic && right.isArithmetic
  | .unary _ operand => operand.isArithmetic
  | .ifThen cond yes => cond.isArithmetic && yes.isArithmetic
  | .ifThenElse cond yes no => cond.isArithmetic && yes.isArithmetic && no.isArithmetic
  | _ => false

namespace Arithmetic

/-! ### Operations -/

inductive Scalar where
  | unit
  | int (n : Int)
  | bool (b : Bool)
  deriving DecidableEq, Repr

inductive Ty where
  | unit | int | bool
  deriving DecidableEq, Repr

namespace Scalar

def type : Scalar → Ty
  | unit => .unit
  | int _ => .int
  | bool _ => .bool

def toValue : Scalar → Value
  | unit => .unit
  | int n => .int n
  | bool b => .bool b

/-- What a message calls the scalar. -/
def words : Scalar → String
  | unit => "Unit ()"
  | int n => "Int " ++ Numeral.text n
  | bool b => if b then "Bool true" else "Bool false"

/-- The numbers in these words. -/
def numbers : Scalar → List Int
  | int n => [n]
  | _ => []

end Scalar

/-- An operator applied to its operands, or the choice of a branch. -/
inductive Operation where
  | binary (op : BinaryOp) (left right : Scalar)
  | unary (op : UnaryOp) (operand : Scalar)
  | branch (cond : Scalar)
  deriving DecidableEq, Repr

/-- The types that both operands of an operator may have. -/
def binaryTypes : BinaryOp → List Ty
  | .add | .sub | .mul | .div | .lt | .gt => [.int]
  | .eq => [.int, .bool]
  | .and | .or => [.bool]

def unaryType : UnaryOp → Ty
  | .negate => .int
  | .not => .bool

/-- `q` is the quotient of `a` by `b`, rounded towards zero. -/
def IsQuotient (a b q : Int) : Prop :=
  ∃ r, a = b * q + r ∧ r.natAbs < b.natAbs ∧ (r = 0 ∨ r.sign = a.sign)

namespace Operation

def WellTyped : Operation → Prop
  | binary op left right => left.type = right.type ∧ left.type ∈ binaryTypes op
  | unary op operand => operand.type = unaryType op
  | branch cond => cond.type = .bool

def DividesByZero : Operation → Prop
  | binary .div (.int _) (.int b) => b = 0
  | _ => False

def Fails (operation : Operation) : Prop :=
  ¬ operation.WellTyped ∨ operation.DividesByZero

/-- The value of an operation in the integers or the truth values. -/
inductive Gives : Operation → Scalar → Prop
  | add {a b} : Gives (binary .add (.int a) (.int b)) (.int (a + b))
  | sub {a b} : Gives (binary .sub (.int a) (.int b)) (.int (a - b))
  | mul {a b} : Gives (binary .mul (.int a) (.int b)) (.int (a * b))
  | div {a b q} (hb : b ≠ 0) (h : IsQuotient a b q) :
      Gives (binary .div (.int a) (.int b)) (.int q)
  | eqInt {a b : Int} : Gives (binary .eq (.int a) (.int b)) (.bool (a = b))
  | lt {a b : Int} : Gives (binary .lt (.int a) (.int b)) (.bool (a < b))
  | gt {a b : Int} : Gives (binary .gt (.int a) (.int b)) (.bool (a > b))
  | eqBool {a b : Bool} : Gives (binary .eq (.bool a) (.bool b)) (.bool (a = b))
  | and {a b} : Gives (binary .and (.bool a) (.bool b)) (.bool (a ∧ b))
  | or {a b} : Gives (binary .or (.bool a) (.bool b)) (.bool (a ∨ b))
  | negate {a} : Gives (unary .negate (.int a)) (.int (-a))
  | not {a} : Gives (unary .not (.bool a)) (.bool (¬ a))
  | branch {b} : Gives (branch (.bool b)) (.bool b)

/-- The error of an operation that fails: for two integers only division can be one. -/
def error : Operation → LanguageError
  | binary .div (.int a) (.int _) => .divisionByZero (Numeral.text a)
  | binary op left right => .binaryMismatch op left.words right.words
  | unary op operand => .unaryMismatch op operand.words
  | branch cond => .conditionMismatch cond.words

/-- The numbers that the message of this error shows. -/
def shown : Operation → List Int
  | binary .div (.int a) (.int _) => [a]
  | binary _ left right => left.numbers ++ right.numbers
  | unary _ operand => operand.numbers
  | branch cond => cond.numbers

end Operation

/-- The report of an error whose message shows these numbers: none of them may have too many
digits. -/
def report (shown : List Int) (error : LanguageError) : Fault :=
  if ∃ n ∈ shown, Numeral.TooLong n then .numberTooLong else .language error

/-- What an operation that fails is reported as. -/
def Operation.fault (operation : Operation) : Fault :=
  report operation.shown operation.error

/-! ### Computations -/

/-- A conditional, its condition and its two branches; an alternative that is left out is unit. -/
inductive Branches : Expr → Expr → Expr → Expr → Prop
  | ifThen {cond yes} : Branches (.ifThen cond yes) cond yes .unit
  | ifThenElse {cond yes no} : Branches (.ifThenElse cond yes no) cond yes no

/-- How a computation goes on with an operation: with its value, or not at all if it fails. -/
inductive Operation.Ends (operation : Operation) : Except Operation Scalar → Prop
  | gives {value} (h : operation.Gives value) : Ends operation (.ok value)
  | fails (h : operation.Fails) : Ends operation (.error operation)

/-- The operations that the expression stands for, in the order in which they are computed, and
their outcome: the value of the expression, or the operation that has none. -/
inductive Computes : Expr → List Operation → Except Operation Scalar → Prop
  | unit : Computes .unit [] (.ok .unit)
  | int {n} : Computes (.int n) [] (.ok (.int n))
  | bool {b} : Computes (.bool b) [] (.ok (.bool b))
  -- Both operands are computed, the left one first.
  | left {op left right ops failed} (h : Computes left ops (.error failed)) :
      Computes (.binary op left right) ops (.error failed)
  | right {op left right ops ops' a failed} (hleft : Computes left ops (.ok a))
      (hright : Computes right ops' (.error failed)) :
      Computes (.binary op left right) (ops ++ ops') (.error failed)
  | binary {op left right ops ops' a b result} (hleft : Computes left ops (.ok a))
      (hright : Computes right ops' (.ok b)) (h : (Operation.binary op a b).Ends result) :
      Computes (.binary op left right) (ops ++ ops' ++ [.binary op a b]) result
  | operand {op operand ops failed} (h : Computes operand ops (.error failed)) :
      Computes (.unary op operand) ops (.error failed)
  | unary {op operand ops a result} (hoperand : Computes operand ops (.ok a))
      (h : (Operation.unary op a).Ends result) :
      Computes (.unary op operand) (ops ++ [.unary op a]) result
  -- Only the branch that the condition selects is computed.
  | condition {e cond yes no ops failed} (he : Branches e cond yes no)
      (h : Computes cond ops (.error failed)) : Computes e ops (.error failed)
  | undecided {e cond yes no ops a} (he : Branches e cond yes no)
      (hcond : Computes cond ops (.ok a)) (h : (Operation.branch a).Fails) :
      Computes e (ops ++ [.branch a]) (.error (.branch a))
  | taken {e cond yes no ops ops' b result} (he : Branches e cond yes no)
      (hcond : Computes cond ops (.ok (.bool b)))
      (h : Computes (if b then yes else no) ops' result) :
      Computes e (ops ++ .branch (.bool b) :: ops') result

/-- The outcome of a computation, as evaluation gives it. -/
def answer : Except Operation Scalar → Except Fault Value
  | .ok value => .ok value.toValue
  | .error operation => .error operation.fault

/-! ### Division -/

variable {a b q q' : Int}

theorem isQuotient_tdiv (hb : b ≠ 0) : IsQuotient a b (a.tdiv b) := by
  refine ⟨a.tmod b, (Int.mul_tdiv_add_tmod a b).symm, ?_, ?_⟩
  · rw [Int.natAbs_tmod]
    exact Nat.mod_lt _ (Int.natAbs_pos.2 hb)
  · have hsign := Int.sign_tmod a b
    split at hsign
    · exact .inl (Int.sign_eq_zero_iff_zero.1 hsign)
    · exact .inr hsign

/-- Two remainders of one dividend are on the same side of zero, so that they differ by less than
the divisor. -/
theorem IsQuotient.unique (h : IsQuotient a b q) (h' : IsQuotient a b q') : q = q' := by
  obtain ⟨r, ha, hr, hsign⟩ := h
  obtain ⟨r', ha', hr', hsign'⟩ := h'
  have hdiff : r' - r = b * (q - q') := by
    rw [Int.mul_sub]
    omega
  have hlt : (r' - r).natAbs < b.natAbs := by
    rcases Int.lt_trichotomy a 0 with hneg | rfl | hpos
    · rw [Int.sign_eq_neg_one_of_neg hneg] at hsign hsign'
      rw [Int.sign_eq_neg_one_iff_neg] at hsign hsign'
      omega
    · rw [Int.sign_zero] at hsign hsign'
      rw [Int.sign_eq_zero_iff_zero] at hsign hsign'
      omega
    · rw [Int.sign_eq_one_of_pos hpos] at hsign hsign'
      rw [Int.sign_eq_one_iff_pos] at hsign hsign'
      omega
  have hzero := Int.eq_zero_of_dvd_of_natAbs_lt_natAbs ⟨_, hdiff⟩ hlt
  rw [hdiff] at hzero
  rcases Int.mul_eq_zero.1 hzero with rfl | hq
  · simp at hr
  · omega

/-- There is one quotient that is rounded towards zero, whatever the signs are. -/
theorem isQuotient_iff (hb : b ≠ 0) : IsQuotient a b q ↔ q = a.tdiv b := by
  constructor
  · exact fun h => h.unique (isQuotient_tdiv hb)
  · rintro rfl
    exact isQuotient_tdiv hb

/-! ### Operations have a value or fail -/

namespace Operation

variable {operation : Operation} {value value' : Scalar}

theorem Gives.not_fails (h : operation.Gives value) : ¬ operation.Fails := by
  cases h with
  | div hb _ => simpa [Fails, WellTyped, DividesByZero, Scalar.type, binaryTypes] using hb
  | _ => simp [Fails, WellTyped, DividesByZero, Scalar.type, binaryTypes, unaryType]

theorem Gives.unique (h : operation.Gives value) (h' : operation.Gives value') :
    value = value' := by
  cases h with
  | div _ hq =>
    cases h' with
    | div _ hq' => rw [hq.unique hq']
  | _ =>
    cases h'
    rfl

theorem gives_or_fails (operation : Operation) :
    (∃ value, operation.Gives value) ∨ operation.Fails := by
  by_cases htyped : operation.WellTyped
  · cases operation with
    | binary op left right =>
      cases op <;> cases left <;> cases right <;>
        simp [WellTyped, Scalar.type, binaryTypes] at htyped
      case add.int.int => exact .inl ⟨_, .add⟩
      case sub.int.int => exact .inl ⟨_, .sub⟩
      case mul.int.int => exact .inl ⟨_, .mul⟩
      case div.int.int a b =>
        by_cases hb : b = 0
        · exact .inr (.inr hb)
        · exact .inl ⟨_, .div hb (isQuotient_tdiv hb)⟩
      case eq.int.int => exact .inl ⟨_, .eqInt⟩
      case eq.bool.bool => exact .inl ⟨_, .eqBool⟩
      case lt.int.int => exact .inl ⟨_, .lt⟩
      case gt.int.int => exact .inl ⟨_, .gt⟩
      case and.bool.bool => exact .inl ⟨_, .and⟩
      case or.bool.bool => exact .inl ⟨_, .or⟩
    | unary op operand =>
      cases op <;> cases operand <;> simp [WellTyped, Scalar.type, unaryType] at htyped
      case negate.int => exact .inl ⟨_, .negate⟩
      case not.bool => exact .inl ⟨_, .not⟩
    | branch cond =>
      cases cond <;> simp [WellTyped, Scalar.type] at htyped
      case bool => exact .inl ⟨_, .branch⟩
  · exact .inr (.inl htyped)

theorem exists_ends (operation : Operation) : ∃ result, operation.Ends result := by
  rcases operation.gives_or_fails with ⟨value, h⟩ | h
  · exact ⟨_, .gives h⟩
  · exact ⟨_, .fails h⟩

theorem Ends.unique {result result' : Except Operation Scalar} (h : operation.Ends result)
    (h' : operation.Ends result') : result = result' := by
  cases h with
  | gives h =>
    cases h' with
    | gives h' => rw [h.unique h']
    | fails h' => exact absurd h' h.not_fails
  | fails h =>
    cases h' with
    | gives h' => exact absurd h h'.not_fails
    | fails _ => rfl

end Operation

/-! ### Computations are determined -/

variable {e cond yes no : Expr} {ops ops' : List Operation}
  {result result' : Except Operation Scalar}

theorem exists_computes_branches (he : Branches e cond yes no)
    (hcond : ∃ ops result, Computes cond ops result)
    (hyes : ∃ ops result, Computes yes ops result) (hno : ∃ ops result, Computes no ops result) :
    ∃ ops result, Computes e ops result := by
  obtain ⟨ops, failed | a, hcond⟩ := hcond
  · exact ⟨_, _, .condition he hcond⟩
  rcases (Operation.branch a).gives_or_fails with ⟨_, hgives⟩ | hfails
  · cases hgives with
    | @branch b =>
      obtain ⟨ops', result, htaken⟩ :
          ∃ ops result, Computes (if b then yes else no) ops result := by
        cases b
        · exact hno
        · exact hyes
      exact ⟨_, _, .taken he hcond htaken⟩
  · exact ⟨_, _, .undecided he hcond hfails⟩

/-- Every expression of literals, operators and conditionals stands for a computation. -/
theorem exists_computes (he : e.isArithmetic = true) : ∃ ops result, Computes e ops result := by
  induction e with
  | unit => exact ⟨_, _, .unit⟩
  | int n => exact ⟨_, _, .int⟩
  | bool b => exact ⟨_, _, .bool⟩
  | binary op left right ihleft ihright =>
    simp only [Expr.isArithmetic, Bool.and_eq_true] at he
    obtain ⟨ops, failed | a, hleft⟩ := ihleft he.1
    · exact ⟨_, _, .left hleft⟩
    obtain ⟨ops', failed | b, hright⟩ := ihright he.2
    · exact ⟨_, _, .right hleft hright⟩
    obtain ⟨result, hends⟩ := (Operation.binary op a b).exists_ends
    exact ⟨_, _, .binary hleft hright hends⟩
  | unary op operand ih =>
    obtain ⟨ops, failed | a, hoperand⟩ := ih he
    · exact ⟨_, _, .operand hoperand⟩
    obtain ⟨result, hends⟩ := (Operation.unary op a).exists_ends
    exact ⟨_, _, .unary hoperand hends⟩
  | ifThen cond yes ihcond ihyes =>
    simp only [Expr.isArithmetic, Bool.and_eq_true] at he
    exact exists_computes_branches .ifThen (ihcond he.1) (ihyes he.2) ⟨_, _, .unit⟩
  | ifThenElse cond yes no ihcond ihyes ihno =>
    simp only [Expr.isArithmetic, Bool.and_eq_true] at he
    exact exists_computes_branches .ifThenElse (ihcond he.1.1) (ihyes he.1.2) (ihno he.2)
  | ident | define | letIn | fn | apply | datum => simp [Expr.isArithmetic] at he

theorem Branches.unique {cond' yes' no' : Expr} (h : Branches e cond yes no)
    (h' : Branches e cond' yes' no') : cond = cond' ∧ yes = yes' ∧ no = no' := by
  cases h <;> cases h' <;> exact ⟨rfl, rfl, rfl⟩

/-- An expression stands for one computation, with one outcome. -/
theorem Computes.unique (h : Computes e ops result) (h' : Computes e ops' result') :
    ops' = ops ∧ result' = result := by
  induction h generalizing ops' result' with
  | unit | int | bool =>
    cases h' with
    | condition he | undecided he | taken he => cases he
    | _ => simp
  | left _ ih =>
    cases h' with
    | left h' => exact ih h'
    | right hleft' | binary hleft' => exact absurd (ih hleft').2 (by simp)
    | condition he | undecided he | taken he => cases he
  | right _ _ ihleft ihright =>
    cases h' with
    | left hleft' => exact absurd (ihleft hleft').2 (by simp)
    | right hleft' hright' =>
      obtain ⟨rfl, -⟩ := ihleft hleft'
      obtain ⟨rfl, hfailed⟩ := ihright hright'
      exact ⟨rfl, hfailed⟩
    | binary _ hright' => exact absurd (ihright hright').2 (by simp)
    | condition he | undecided he | taken he => cases he
  | binary _ _ hends ihleft ihright =>
    cases h' with
    | left hleft' => exact absurd (ihleft hleft').2 (by simp)
    | right _ hright' => exact absurd (ihright hright').2 (by simp)
    | binary hleft' hright' hends' =>
      obtain ⟨rfl, ha⟩ := ihleft hleft'
      obtain ⟨rfl, hb⟩ := ihright hright'
      cases ha
      cases hb
      exact ⟨rfl, hends'.unique hends⟩
    | condition he | undecided he | taken he => cases he
  | operand _ ih =>
    cases h' with
    | operand h' => exact ih h'
    | unary hoperand' => exact absurd (ih hoperand').2 (by simp)
    | condition he | undecided he | taken he => cases he
  | unary _ hends ih =>
    cases h' with
    | operand h' => exact absurd (ih h').2 (by simp)
    | unary hoperand' hends' =>
      obtain ⟨rfl, ha⟩ := ih hoperand'
      cases ha
      exact ⟨rfl, hends'.unique hends⟩
    | condition he | undecided he | taken he => cases he
  | condition he _ ih =>
    cases h' with
    | condition he' h' =>
      obtain ⟨rfl, -, -⟩ := he.unique he'
      exact ih h'
    | undecided he' hcond' | taken he' hcond' =>
      obtain ⟨rfl, -, -⟩ := he.unique he'
      exact absurd (ih hcond').2 (by simp)
    | _ => cases he
  | undecided he _ hfails ih =>
    cases h' with
    | condition he' h' =>
      obtain ⟨rfl, -, -⟩ := he.unique he'
      exact absurd (ih h').2 (by simp)
    | undecided he' hcond' =>
      obtain ⟨rfl, -, -⟩ := he.unique he'
      obtain ⟨rfl, ha⟩ := ih hcond'
      cases ha
      exact ⟨rfl, rfl⟩
    | taken he' hcond' =>
      obtain ⟨rfl, -, -⟩ := he.unique he'
      obtain ⟨-, ha⟩ := ih hcond'
      cases ha
      exact absurd hfails Operation.Gives.branch.not_fails
    | _ => cases he
  | taken he _ _ ihcond ihtaken =>
    cases h' with
    | condition he' h' =>
      obtain ⟨rfl, -, -⟩ := he.unique he'
      exact absurd (ihcond h').2 (by simp)
    | undecided he' hcond' hfails' =>
      obtain ⟨rfl, -, -⟩ := he.unique he'
      obtain ⟨-, ha⟩ := ihcond hcond'
      cases ha
      exact absurd hfails' Operation.Gives.branch.not_fails
    | taken he' hcond' htaken' =>
      obtain ⟨rfl, rfl, rfl⟩ := he.unique he'
      obtain ⟨rfl, hb⟩ := ihcond hcond'
      cases hb
      obtain ⟨rfl, hresult⟩ := ihtaken htaken'
      exact ⟨rfl, hresult⟩
    | _ => cases he

/-- The last operation fails if there is no value, and no other operation fails. -/
def FirstFailure (ops : List Operation) : Except Operation Scalar → Prop
  | .ok _ => ∀ operation ∈ ops, ¬ operation.Fails
  | .error failed => ∃ before, ops = before ++ [failed] ∧ failed.Fails ∧
      ∀ operation ∈ before, ¬ operation.Fails

theorem FirstFailure.append (hops : ∀ operation ∈ ops, ¬ operation.Fails)
    (h : FirstFailure ops' result) : FirstFailure (ops ++ ops') result := by
  cases result with
  | ok value => exact List.forall_mem_append.2 ⟨hops, h⟩
  | error failed =>
    obtain ⟨before, rfl, hfails, hbefore⟩ := h
    exact ⟨ops ++ before, (List.append_assoc ..).symm, hfails,
      List.forall_mem_append.2 ⟨hops, hbefore⟩⟩

theorem Operation.Ends.firstFailure {operation : Operation} (h : operation.Ends result) :
    FirstFailure [operation] result := by
  cases h with
  | gives h => exact List.forall_mem_singleton.2 h.not_fails
  | fails h => exact ⟨[], rfl, h, by simp⟩

/-- A computation goes on until an operation fails. -/
theorem Computes.firstFailure (h : Computes e ops result) : FirstFailure ops result := by
  induction h with
  | unit | int | bool => simp [FirstFailure]
  | left _ ih | operand _ ih | condition _ _ ih => exact ih
  | right _ _ ihleft ihright => exact ihright.append ihleft
  | binary _ _ hends ihleft ihright => exact hends.firstFailure.append (ihright.append ihleft)
  | unary _ hends ih => exact hends.firstFailure.append ih
  | undecided _ _ hfails ih => exact (Operation.Ends.fails hfails).firstFailure.append ih
  | @taken _ _ _ _ _ _ b _ _ _ _ ihcond ih =>
    have hbranch : ∀ operation ∈ [Operation.branch (.bool b)], ¬ operation.Fails :=
      List.forall_mem_singleton.2 Operation.Gives.branch.not_fails
    exact (ih.append hbranch).append ihcond

/-! ### Operators on values -/

theorem text?_eq_ite (n : Int) :
    Numeral.text? n = if Numeral.TooLong n then none else some (Numeral.text n) := by
  split
  case isTrue h => exact Numeral.text?_eq_none_iff.2 h
  case isFalse h =>
    rw [← Numeral.text?_eq_none_iff, Numeral.text?] at h
    rw [Numeral.text?]
    split at h
    · rw [if_pos ‹_›]
    · exact absurd rfl h

/-- A scalar is described by its words, unless there is a number in them that cannot be written. -/
theorem Scalar.describe?_toValue (a : Scalar) :
    a.toValue.describe? = if ∃ n ∈ a.numbers, Numeral.TooLong n then none else some a.words := by
  cases a with
  | unit => rfl
  | int n =>
    simp only [Value.describe?, toValue, Value.text?, text?_eq_ite, numbers, words]
    split <;> simp_all [Value.typeName]
  | bool b => cases b <;> rfl

/-- An error that is described with texts is reported, if the texts are there exactly as long as no
number that they show is too long. -/
theorem complain_eq_report {α : Type} {shown : List Int} {error : LanguageError}
    {described : Option LanguageError}
    (h : described = if ∃ n ∈ shown, Numeral.TooLong n then none else some error) :
    (Value.complain described : Except Fault α) = .error (report shown error) := by
  rw [h, report]
  split <;> rfl

theorem complain_describe? {α : Type} (a : Scalar) (error : String → LanguageError) :
    (Value.complain (a.toValue.describe?.map error) : Except Fault α) =
      .error (report a.numbers (error a.words)) := by
  apply complain_eq_report
  rw [a.describe?_toValue]
  split <;> rfl

theorem complain_divisionByZero {α : Type} (n : Int) :
    (Value.complain ((Numeral.text? n).map .divisionByZero) : Except Fault α) =
      .error (report [n] (.divisionByZero (Numeral.text n))) := by
  apply complain_eq_report
  rw [text?_eq_ite]
  split <;> simp_all

theorem binaryMismatch_toValue (op : BinaryOp) (a b : Scalar) :
    Value.binaryMismatch op a.toValue b.toValue =
      .error (report (a.numbers ++ b.numbers) (.binaryMismatch op a.words b.words)) := by
  apply complain_eq_report
  rw [a.describe?_toValue, b.describe?_toValue]
  simp only [List.mem_append, or_and_right, exists_or]
  by_cases ha : ∃ n ∈ a.numbers, Numeral.TooLong n
  · rw [if_pos ha, if_pos (Or.inl ha)]
  by_cases hb : ∃ n ∈ b.numbers, Numeral.TooLong n
  · rw [if_neg ha, if_pos hb, if_pos (Or.inr hb)]
  · rw [if_neg ha, if_neg hb, if_neg (not_or.2 ⟨ha, hb⟩)]

namespace Operation

variable {op : BinaryOp} {a b : Scalar}

/-- The operator has no case for operands of other types than those in the table. -/
theorem binary_of_not_wellTyped (h : ¬ (binary op a b).WellTyped) :
    Value.binary op a.toValue b.toValue = Value.binaryMismatch op a.toValue b.toValue := by
  cases op <;> cases a <;> cases b <;> simp [WellTyped, Scalar.type, binaryTypes] at h
  all_goals simp [Scalar.toValue, Value.binary]

theorem fault_of_not_wellTyped (h : ¬ (binary op a b).WellTyped) :
    (binary op a b).fault =
      report (a.numbers ++ b.numbers) (.binaryMismatch op a.words b.words) := by
  cases op <;> cases a <;> cases b <;> simp [WellTyped, Scalar.type, binaryTypes] at h
  all_goals rfl

theorem Ends.binary_eq (h : (Operation.binary op a b).Ends result) :
    Value.binary op a.toValue b.toValue = answer result := by
  cases h with
  | gives h =>
    cases h with
    | div hb hq => simp [Scalar.toValue, Value.binary, answer, hb, (isQuotient_iff hb).1 hq]
    | _ => simp [Scalar.toValue, Value.binary, answer]
  | fails h =>
    rcases h with htyped | hzero
    · rw [binary_of_not_wellTyped htyped, binaryMismatch_toValue, answer,
        fault_of_not_wellTyped htyped]
    · cases op <;> cases a <;> cases b <;> simp [DividesByZero] at hzero
      case div.int.int a _ =>
        simp only [Scalar.toValue, Value.binary, hzero, if_true]
        exact complain_divisionByZero a

theorem Ends.unary_eq {op : UnaryOp} (h : (Operation.unary op a).Ends result) :
    Value.unary op a.toValue = answer result := by
  cases h with
  | gives h => cases h <;> simp [Scalar.toValue, Value.unary, answer]
  | fails h =>
    have hvalue : Value.unary op a.toValue =
        Value.complain (a.toValue.describe?.map (.unaryMismatch op)) := by
      cases op <;> cases a <;> simp [Fails, DividesByZero, WellTyped, Scalar.type, unaryType] at h
      all_goals rfl
    rw [hvalue]
    exact complain_describe? a _

end Operation

/-! ### Evaluation -/

open Evaluating

variable {α β : Type} {short short' : Prop} {store : Store}

/-- The computation leaves the store as it is and gives the result, or it is short of budget and
runs out of it. -/
def Steady (short : Prop) (x : Evaluating α) (store : Store) (result : Except Fault α) : Prop :=
  outcome x store = (result, store) ∨
    short ∧ outcome x store = (.error .recursionLimit, store)

theorem Steady.mono {x : Evaluating α} {result : Except Fault α} (h : Steady short x store result)
    (hshort : short → short') : Steady short' x store result :=
  h.imp_right fun ⟨hs, hx⟩ => ⟨hshort hs, hx⟩

theorem steady_lift (result : Except Fault α) : Steady short (lift result) store result :=
  .inl rfl

theorem Steady.bind {x : Evaluating α} {a : α} {f : α → Evaluating β} {result : Except Fault β}
    (hx : Steady short x store (.ok a)) (hf : Steady short (f a) store result) :
    Steady short (x >>= f) store result := by
  rcases hx with hx | ⟨hs, hx⟩
  · rw [Steady, outcome_bind_of_ok hx]
    exact hf
  · exact .inr ⟨hs, outcome_bind_of_error hx f⟩

theorem Steady.bind_error {x : Evaluating α} {fault : Fault}
    (hx : Steady short x store (.error fault)) (f : α → Evaluating β) :
    Steady short (x >>= f) store (.error fault) := by
  rcases hx with hx | ⟨hs, hx⟩
  · exact .inl (outcome_bind_of_error hx f)
  · exact .inr ⟨hs, outcome_bind_of_error hx f⟩

/-- How deep operators and conditionals are nested in the expression. -/
def height : Expr → Nat
  | .binary _ left right => max (height left) (height right) + 1
  | .unary _ operand => height operand + 1
  | .ifThen cond yes => max (height cond) (height yes) + 1
  | .ifThenElse cond yes no => max (height cond) (max (height yes) (height no)) + 1
  | _ => 0

/-- The expression gives the result in every scope of every store, if the budget exceeds its
height. -/
def Settles (e : Expr) (result : Except Fault Value) : Prop :=
  ∀ budget scope store, Steady (budget ≤ height e) (evaluate budget e scope) store result

theorem Settles.steady {part : Expr} {result : Except Fault Value} (h : Settles part result)
    (hpart : height part < height e) (budget : Nat) (scope : ScopeId) (store : Store) :
    Steady (budget < height e) (evaluate budget part scope) store result :=
  (h budget scope store).mono fun hle => Nat.lt_of_le_of_lt hle hpart

/-- One unit of budget is for the expression itself. -/
theorem settles_of_steady {result : Except Fault Value}
    (h : ∀ budget scope store,
      Steady (budget < height e) (evaluate (budget + 1) e scope) store result) :
    Settles e result := by
  intro budget scope store
  cases budget with
  | zero => exact .inr ⟨Nat.zero_le _, rfl⟩
  | succ budget => exact h budget scope store

theorem Branches.height_lt (h : Branches e cond yes no) :
    height cond < height e ∧ height yes < height e ∧ height no < height e := by
  cases h <;> simp [height]

theorem Branches.settles_condition {failed : Operation} (h : Branches e cond yes no)
    (hcond : Settles cond (answer (.error failed))) : Settles e (answer (.error failed)) := by
  apply settles_of_steady
  intro budget scope store
  have hcond := hcond.steady h.height_lt.1 budget scope store
  cases h <;> exact hcond.bind_error _

theorem Branches.settles_undecided {a : Scalar} (h : Branches e cond yes no)
    (hcond : Settles cond (answer (.ok a))) (hfails : (Operation.branch a).Fails) :
    Settles e (answer (.error (.branch a))) := by
  apply settles_of_steady
  intro budget scope store
  have hcond := hcond.steady h.height_lt.1 budget scope store
  have hanswer : answer (.error (.branch a)) =
      Value.complain (a.toValue.describe?.map .conditionMismatch) :=
    (complain_describe? a _).symm
  rw [hanswer]
  cases a with
  | bool => exact absurd hfails Operation.Gives.branch.not_fails
  | unit | int => cases h <;> exact hcond.bind (steady_lift _)

theorem Branches.settles_taken {b : Bool} {result : Except Fault Value} (h : Branches e cond yes no)
    (hcond : Settles cond (answer (.ok (.bool b))))
    (htaken : Settles (if b then yes else no) result) : Settles e result := by
  apply settles_of_steady
  intro budget scope store
  obtain ⟨hlt, hyes, hno⟩ := h.height_lt
  have hcond := hcond.steady hlt budget scope store
  cases h with
  | ifThen =>
    cases b
    -- The unit of an alternative that is left out takes no budget.
    · exact hcond.bind ((htaken 1 scope store).mono (by simp [height]))
    · exact hcond.bind (htaken.steady hyes ..)
  | ifThenElse =>
    cases b
    · exact hcond.bind (htaken.steady hno ..)
    · exact hcond.bind (htaken.steady hyes ..)

/-- Evaluation goes the way of the computation. -/
theorem Computes.settles (h : Computes e ops result) : Settles e (answer result) := by
  induction h with
  | unit | int | bool => exact settles_of_steady fun _ _ _ => .inl rfl
  | left _ ih =>
    apply settles_of_steady
    intro budget scope store
    exact (ih.steady (by simp [height]) ..).bind_error _
  | right _ _ ihleft ihright =>
    apply settles_of_steady
    intro budget scope store
    exact (ihleft.steady (by simp [height]) ..).bind
      ((ihright.steady (by simp [height]) ..).bind_error _)
  | binary _ _ hends ihleft ihright =>
    apply settles_of_steady
    intro budget scope store
    rw [← hends.binary_eq]
    exact (ihleft.steady (by simp [height]) ..).bind
      ((ihright.steady (by simp [height]) ..).bind (steady_lift _))
  | operand _ ih =>
    apply settles_of_steady
    intro budget scope store
    exact (ih.steady (by simp [height]) ..).bind_error _
  | unary _ hends ih =>
    apply settles_of_steady
    intro budget scope store
    rw [← hends.unary_eq]
    exact (ih.steady (by simp [height]) ..).bind (steady_lift _)
  | condition he _ ih => exact he.settles_condition ih
  | undecided he _ hfails ih => exact he.settles_undecided ih hfails
  | taken he _ _ ihcond ih => exact he.settles_taken ihcond ih

/-! ### Exact arithmetic -/

/-- The error is about the type of an operand or of a condition. -/
def IsTypeMismatch : LanguageError → Prop
  | .binaryMismatch .. | .unaryMismatch .. | .conditionMismatch _ => True
  | _ => False

theorem Operation.error_of_not_wellTyped {operation : Operation} (h : ¬ operation.WellTyped) :
    IsTypeMismatch operation.error := by
  cases operation with
  | binary op a b =>
    cases op <;> cases a <;> cases b <;> simp [WellTyped, Scalar.type, binaryTypes] at h
    all_goals trivial
  | unary | branch => trivial

theorem Operation.error_of_dividesByZero {operation : Operation} (h : operation.DividesByZero) :
    ∃ n, operation.error = .divisionByZero (Numeral.text n) := by
  cases operation with
  | binary op a b =>
    cases op <;> cases a <;> cases b <;> simp [DividesByZero] at h
    exact ⟨_, rfl⟩
  | unary | branch => exact h.elim

theorem FirstFailure.error_iff (h : FirstFailure ops result) :
    (∃ failed, result = .error failed) ↔ ∃ operation ∈ ops, operation.Fails := by
  cases result with
  | ok value => simpa [FirstFailure] using h
  | error failed =>
    obtain ⟨before, rfl, hfails, -⟩ := h
    exact ⟨fun _ => ⟨failed, by simp, hfails⟩, fun _ => ⟨failed, rfl⟩⟩

/-- An expression of literals, operators and conditionals stands for one computation in the integers
and truth values, and evaluating it has the outcome of this computation in every scope of every
store, which remains as it is. There is no value exactly if an operation that is computed is ill
typed or divides by zero, and the first such operation is the one that is reported. -/
theorem evaluate_arithmetic (e : Expr) (he : e.isArithmetic = true) :
    ∃ ops result, (∀ ops' result', Computes e ops' result' ↔ ops' = ops ∧ result' = result) ∧
      (∀ budget scope store, outcome (evaluate budget e scope) store = (answer result, store) ∨
        budget ≤ height e ∧
          outcome (evaluate budget e scope) store = (.error .recursionLimit, store)) ∧
      ((∃ failed, result = .error failed) ↔ ∃ operation ∈ ops, operation.Fails) ∧
      ∀ failed, result = .error failed →
        (∃ before, ops = before ++ [failed] ∧ failed.Fails ∧
          ∀ operation ∈ before, ¬ operation.Fails) ∧
        (¬ failed.WellTyped → IsTypeMismatch failed.error) ∧
        (failed.DividesByZero → ∃ n, failed.error = .divisionByZero (Numeral.text n)) := by
  obtain ⟨ops, result, h⟩ := exists_computes he
  refine ⟨ops, result, ?_, h.settles, h.firstFailure.error_iff, ?_⟩
  · intro ops' result'
    constructor
    · exact h.unique
    · rintro ⟨rfl, rfl⟩
      exact h
  · rintro failed rfl
    exact ⟨h.firstFailure, Operation.error_of_not_wellTyped, Operation.error_of_dividesByZero⟩

/-- The quotient of `-7` by `2` is `-3`, the branch that divides by zero is not taken, and an
integer has no sum with a unit. -/
theorem evaluate_arithmetic_untaken :
    let e : Expr := .binary .add (.binary .div (.int (-7)) (.int 2))
      (.ifThen (.bool false) (.binary .div (.int 1) (.int 0)))
    e.isArithmetic = true ∧ ∀ scope store, outcome (evaluate 5 e scope) store =
      (.error (.language (.binaryMismatch .add "Int -3" "Unit ()")), store) := by
  intro e
  have he : e.isArithmetic = true := rfl
  refine ⟨he, fun scope store => ?_⟩
  obtain ⟨ops, result, hcomputes, hevaluate, -⟩ := evaluate_arithmetic e he
  have hquotient : IsQuotient (-7) 2 (-3) := ⟨-1, by decide, by decide, by decide⟩
  have hsum : (Operation.binary .add (.int (-3)) .unit).Fails :=
    .inl (by simp [Operation.WellTyped, Scalar.type])
  obtain ⟨rfl, rfl⟩ := (hcomputes _ _).1 (.binary
    (.binary .int .int (.gives (.div (by decide) hquotient)))
    (.taken .ifThen .bool .unit) (.fails hsum))
  rcases hevaluate 5 scope store with h | ⟨h, -⟩
  · have hshort : ¬ ∃ n ∈ (Operation.binary .add (.int (-3)) .unit).shown, Numeral.TooLong n := by
      simp [Operation.shown, Scalar.numbers, Numeral.TooLong, Numeral.digitLimit]
    rw [h, answer, Operation.fault, report, if_neg hshort]
    rfl
  · exact absurd h (by decide)

end Arithmetic
end LetLang
