import WasmBindings.Text.CaseData

namespace WasmBindings.Text

def isCaseIgnorable (c : Char) : Bool :=
  if c.toNat < 128 then c.toNat ∈ [39, 46, 58, 94, 96] else within caseIgnorableBounds c.toNat

def isCased (c : Char) : Bool :=
  if c.toNat < 128 then c.isAlpha else within casedBounds c.toNat

def meetsCased (s : List Char) : Bool :=
  match s.dropWhile isCaseIgnorable with
  | c :: _ => isCased c
  | [] => false

def lowerChar (c : Char) : List Char :=
  if c.toNat < 128 then [c.toLower]
  else if c.toNat = 0x130 then ['i', Char.ofNat 0x307]
  else [Char.ofNat (moveBy lowerBlocks c.toNat)]

def upperChar (c : Char) : List Char :=
  if c.toNat < 128 then [c.toUpper]
  else match upperExpansions.lookup c.toNat with
    | some ns => ns.map Char.ofNat
    | none => [Char.ofNat (moveBy upperBlocks c.toNat)]

/-- Lower case in context: `before` is the part already read, nearest character first. -/
def lowerAfter (before : List Char) : List Char → List Char
  | [] => []
  | c :: r =>
    (if c = 'Σ' then [if meetsCased before && !meetsCased r then 'ς' else 'σ'] else lowerChar c)
      ++ lowerAfter (c :: before) r

def lower (s : List Char) : List Char := lowerAfter [] s

@[simp] theorem lower_nil : lower [] = [] := rfl

theorem lowerAfter_of_ascii {s : List Char} (h : ∀ c ∈ s, c.toNat < 128) (before : List Char) :
    lowerAfter before s = s.map Char.toLower := by
  induction s generalizing before with
  | nil => rfl
  | cons c r ih =>
    have hc : c.toNat < 128 := h c (by simp)
    have hs : c ≠ 'Σ' := by
      intro he
      subst he
      exact absurd hc (by decide)
    simp [lowerAfter, lowerChar, hs, hc, ih fun d hd => h d (by simp [hd])]

theorem lower_of_ascii {s : List Char} (h : ∀ c ∈ s, c.toNat < 128) :
    lower s = s.map Char.toLower :=
  lowerAfter_of_ascii h []

end WasmBindings.Text
