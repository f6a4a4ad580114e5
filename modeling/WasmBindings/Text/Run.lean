import WasmBindings.Text.Blank
import WasmBindings.Text.WordChar

namespace WasmBindings.Text

def runs : List Char → List (List Char)
  | [] => []
  | c :: r =>
    match runs r with
    | (d :: w) :: rest =>
      if isWord c && isWord d then (c :: d :: w) :: rest else [c] :: (d :: w) :: rest
    | rest => [c] :: rest

def isBlankRun (w : List Char) : Bool := w.all isBlank

def hasWord (word s : List Char) : Bool := (runs s).contains word

def removeWords (words : List (List Char)) (s : List Char) : List Char :=
  ((runs s).filter fun w => !words.contains w).flatten

def blankNext : List (List Char) → Bool
  | w :: _ => isBlankRun w
  | [] => false

/-- Removes each listed tag that has blanks after it, together with those blanks.  The flag says
that the blanks of a removed tag are still being skipped. -/
def dropTagsFrom (tags : List (List Char)) : Bool → List (List Char) → List Char
  | _, [] => []
  | skipping, w :: rest =>
    if skipping && isBlankRun w then dropTagsFrom tags true rest
    else if tags.contains w && blankNext rest then dropTagsFrom tags true rest
    else w ++ dropTagsFrom tags false rest

def dropTags (tags : List (List Char)) (s : List Char) : List Char :=
  dropTagsFrom tags false (runs s)

def spaceAfterFrom (word : List Char) : Bool → List (List Char) → List Char
  | _, [] => []
  | skipping, w :: rest =>
    if skipping && isBlankRun w then spaceAfterFrom word true rest
    else if w == word then w ++ ' ' :: spaceAfterFrom word true rest
    else w ++ spaceAfterFrom word false rest

def spaceAfter (word s : List Char) : List Char := spaceAfterFrom word false (runs s)

def dropLeadingTag (tag s : List Char) : List Char :=
  if tag.isPrefixOf s then
    match s.drop tag.length with
    | c :: r => if isBlank c then trimStart (c :: r) else s
    | [] => s
  else s

def isBoundary (before after : Option Char) : Bool :=
  before.any isWord != after.any isWord

/-- Whether `token` occurs with a word boundary on either side. -/
def hasBounded (token : List Char) (before : Option Char) : List Char → Bool
  | [] => token.isEmpty && isBoundary before none
  | c :: r =>
    (token.isPrefixOf (c :: r) && isBoundary before (some c)
      && isBoundary ((token.getLast?).or before) ((c :: r)[token.length]?))
      || hasBounded token (some c) r

@[simp] theorem runs_nil : runs [] = [] := rfl

theorem flatten_runs (s : List Char) : (runs s).flatten = s := by
  induction s with
  | nil => rfl
  | cons c r ih =>
    rw [runs]
    split
    · next d w rest h =>
      rw [h] at ih
      split <;> simp_all
    · simp [ih]

theorem ne_nil_of_mem_runs {s w : List Char} (h : w ∈ runs s) : w ≠ [] := by
  induction s generalizing w with
  | nil => simp at h
  | cons c r ih =>
    rw [runs] at h
    split at h
    · next d v rest hr =>
      split at h
      · rcases List.mem_cons.1 h with rfl | h
        · simp
        · exact ih (by rw [hr]; exact List.mem_cons_of_mem _ h)
      · rcases List.mem_cons.1 h with rfl | h
        · simp
        · exact ih (by rw [hr]; exact h)
    · rcases List.mem_cons.1 h with rfl | h
      · simp
      · exact ih h

end WasmBindings.Text
