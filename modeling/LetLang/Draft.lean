import LetLang.Notice
import LetLang.Text.Template
/-!
# Drafts of notices

A draft is a notice in free words: a template and the pieces to fill it with. Whoever makes one
learns at once whether its message can be filled. Since the pieces are put in bold before they are
laid out, showing it may still fail.
-/
namespace LetLang

structure Draft where
  words : String
  pieces : List String
  /-- The words filled with the pieces. -/
  message : String
  source : String
  start : Int
  stop : Int
  diagnosed : Bool
  internal : Bool
  deriving DecidableEq, Repr

namespace Draft

/-- A draft whose message can be filled. A part of the source is given as for a notice, with `-1`
for the end of the source, and nothing is to be shown of an empty source. -/
def make (words : String) (pieces : List String) (source : String) (start stop : Int)
    (diagnosed internal : Bool) : Except Template.Fault Draft :=
  match Template.format words pieces with
  | .error fault => .error fault
  | .ok message =>
    .ok
      { words
        pieces
        message
        source
        start
        stop := Notice.stopIn source stop
        diagnosed := diagnosed && source ≠ ""
        internal }

/-- The words filled with the pieces in bold. -/
def highlighted (colours : Bool) (draft : Draft) : Except Template.Fault String :=
  Template.format draft.words (draft.pieces.map (Ink.plain.paint colours))

/-- The notice as it is to be shown. -/
def notice (colours : Bool) (draft : Draft) : Except Template.Fault Notice :=
  match draft.highlighted colours with
  | .error fault => .error fault
  | .ok text =>
    .ok
      { wording := [.words text]
        source := draft.source
        start := draft.start
        stop := draft.stop
        diagnosed := draft.diagnosed
        internal := draft.internal }

end Draft
end LetLang
