import ProtoBuild.Text.Split

/-!
# Paths as texts

A path is a string with `/` between its names.  Everything here is lexical: no
directory is looked at.  `components` is the meaning of a path, and it does not
see repeated or trailing slashes, nor a `.` that is not the whole beginning of a
relative path.  `resolve?` reduces a path further, letting each `..` take away
the name before it; it fails where there is none.

Joining, cutting off the last name and listing the ancestors keep the spelling of
what they leave, because paths are printed as they were given.
-/

namespace ProtoBuild
namespace Path

/-- One step of a path. -/
inductive Component where
  /-- The `/` that an absolute path begins with. -/
  | root
  /-- The `.` that a relative path begins with. -/
  | here
  /-- A step up, `..`. -/
  | parent
  /-- A step down into the entry of this name. -/
  | name (text : List Char)
  deriving DecidableEq, Repr

/-- How a component is written. -/
def Component.text : Component → List Char
  | .root => ['/']
  | .here => ['.']
  | .parent => ['.', '.']
  | .name text => text

/-- Whether a path begins with `/`. -/
def isAbsolute (path : String) : Bool :=
  path.toList.head? == some '/'

/-- The component a piece between slashes stands for; an empty piece and a `.`
stand for none. -/
def stepOf? (piece : List Char) : Option Component :=
  if piece = [] ∨ piece = ['.'] then none
  else if piece = ['.', '.'] then some .parent
  else some (.name piece)

/-- The components of a path. -/
def components (path : String) : List Component :=
  let pieces := Text.splitOn '/' path.toList
  let steps := pieces.filterMap stepOf?
  if isAbsolute path then .root :: steps
  else if pieces.head? = some ['.'] then .here :: steps
  else steps

/-- The names on a path. -/
def names (path : String) : List String :=
  (components path).filterMap fun
    | .name text => some (String.ofList text)
    | _ => none

/-- A path below another one.  An absolute path stands for itself. -/
def join (base child : String) : String :=
  if isAbsolute child || base.isEmpty then child
  else if base.toList.getLast? == some '/' then base ++ child
  else base ++ "/" ++ child

/-- One step of `resolve?` on the components kept so far, the last one first. -/
def resolveStep? (kept : List Component) : Component → Option (List Component)
  | .here => some kept
  | .parent =>
    match kept with
    | .name _ :: rest => some rest
    | _ => none
  | c => some (c :: kept)

/-- The components of a path with every `.` dropped and every `..` taken together
with the name before it, or `none` where there is no such name. -/
def resolve? (path : String) : Option (List Component) :=
  ((components path).foldlM resolveStep? []).map List.reverse

/-- The components that lead from `base` to `path`, if `base` is an ancestor. -/
def below? {α : Type} [DecidableEq α] (base path : List α) : Option (List α) :=
  match base, path with
  | [], rest => some rest
  | b :: bs, p :: ps => if b = p then below? bs ps else none
  | _ :: _, [] => none

/-- Components with slashes between them, `.` where there are none. -/
def relativeText (steps : List Component) : String :=
  if steps.isEmpty then "." else String.ofList (Text.join '/' (steps.map Component.text))

/-- The last name of a path, if its last component is a name. -/
def fileName? (path : String) : Option String :=
  match (components path).getLast? with
  | some (.name text) => some (String.ofList text)
  | _ => none

/-! ## Ancestors, as they are spelled

The texts below are read from their end, so they are reversed. -/

/-- A reversed path without the slashes, and the dots after slashes, at its end. -/
def trimReversed : List Char → List Char
  | ['/'] => ['/']
  | '/' :: rest => trimReversed rest
  | ['.', '/'] => ['/']
  | '.' :: '/' :: rest => trimReversed rest
  | rev => rev

theorem length_trimReversed_le (rev : List Char) : (trimReversed rev).length ≤ rev.length := by
  fun_induction trimReversed rev <;> simp_all <;> omega

/-- The path without its last component, reversed; the root and the empty path
have none. -/
def parentReversed? (rev : List Char) : Option (List Char) :=
  match trimReversed rev with
  | [] => none
  | ['/'] => none
  | _ :: rest => some (trimReversed (rest.dropWhile (· != '/')))

theorem length_parentReversed_lt {rev up : List Char} (h : parentReversed? rev = some up) :
    up.length < rev.length := by
  have hle := length_trimReversed_le rev
  unfold parentReversed? at h
  split at h
  · simp at h
  · simp at h
  · rename_i c rest _ heq
    rw [heq] at hle
    have h₁ := length_trimReversed_le (rest.dropWhile (· != '/'))
    have h₂ := (List.dropWhile_sublist (l := rest) (· != '/')).length_le
    simp only [Option.some.injEq] at h
    subst h
    simp only [List.length_cons] at hle
    omega

/-- A reversed path and the paths above it, nearest first. -/
def ancestorsReversed (rev : List Char) : List (List Char) :=
  match _h : parentReversed? rev with
  | none => [rev]
  | some up => rev :: ancestorsReversed up
termination_by rev.length
decreasing_by exact length_parentReversed_lt ‹_›

/-- A path and the paths above it, nearest first. -/
def ancestors (path : String) : List String :=
  (ancestorsReversed path.toList.reverse).map fun rev => String.ofList rev.reverse

/-- The path without its last component. -/
def parent? (path : String) : Option String :=
  (parentReversed? path.toList.reverse).map fun rev => String.ofList rev.reverse

/-- What an absolute path begins with: two slashes are kept, more are one. -/
def lead : List Char → List Char
  | ['/', '/'] => ['/', '/']
  | '/' :: '/' :: c :: _ => if c == '/' then ['/'] else ['/', '/']
  | _ => ['/']

/-- An absolute path with repeated slashes and dots dropped; steps up and one
trailing slash are kept. -/
def tidy (path : String) : String :=
  let steps := (components path).filterMap fun
    | .root => none
    | .here => none
    | c => some c.text
  let text := lead path.toList ++ Text.join '/' steps
  if path.toList.getLast? == some '/' && ! steps.isEmpty then String.ofList (text ++ ['/'])
  else String.ofList text

/-! ## Patterns -/

/-- The text without the slashes at either end. -/
def trimSlashes (cs : List Char) : List Char :=
  ((cs.dropWhile (· == '/')).reverse.dropWhile (· == '/')).reverse

/-- The pattern of everything at or below a path that is relative to the root of
the workspace. -/
def pattern (path : String) : String :=
  let cs := trimSlashes path.toList
  if cs = [] ∨ cs = ['.'] then "//..." else "//" ++ String.ofList cs ++ "/..."

end Path
end ProtoBuild
