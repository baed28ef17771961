import RowGraph.Execution.Overview
import RowGraph.Session
/-!
Schemas of texts in pieces. A text is read by its characters, and the characters of a text that is
put together are those of its pieces, in order; so the schema of such a text is computed without the
text itself, which takes much longer to take apart than its pieces do. Main statements: what is read
of a text, and what is built from it, by its characters.
-/

namespace RowGraph

open Grammar

theorem Overview.toList_ask (name : String) (inside : List String) :
    (ask name inside).toList = name.toList ++ ['{', ' '] ++
      [' '].intercalate (inside.map String.toList) ++ [' ', '}', ' '] := by
  unfold ask
  simp only [String.toList_append, String.toList_intercalate]
  rfl

def Definition.ofChars? (cs : List Char) : Option (List Definition) := do
  let (defs, c) ← many1 definition ⟨.start, cs⟩
  if c.skip.rest.isEmpty then some defs else none

theorem Definition.readAll?_toList (source : String) :
    readAll? source = ofChars? source.toList := rfl

def Document.ofChars (cs : List Char) : Except SchemaProblem Document :=
  match Definition.ofChars? cs with
  | some defs => ofDefinitions defs
  | none => .error .malformed

theorem Document.read_toList (source : String) : read source = ofChars source.toList := by
  unfold read ofChars
  rewrite [Definition.readAll?_toList]
  cases Definition.ofChars? source.toList <;> rfl

theorem Blueprint.read_toList (source : String) :
    read source = Document.ofChars source.toList >>= ofDocument := by
  unfold read
  rw [Document.read_toList]

theorem Session.build_toList (settings : Settings) (source : String) (hooks : List Attachment) :
    build settings source hooks = (do
      let b ← (Document.ofChars source.toList >>= Blueprint.ofDocument).mapError SchemaProblem.error
      (← attachAll b hooks).finish settings) := by
  unfold build
  rw [Blueprint.read_toList]
  cases Document.ofChars source.toList >>= Blueprint.ofDocument <;> rfl

end RowGraph
