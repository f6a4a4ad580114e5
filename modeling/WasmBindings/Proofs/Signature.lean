import WasmBindings.Proofs.Text.Numeral
import WasmBindings.Signature

namespace WasmBindings.Text

theorem eq_of_first_eq {sep : Char} {s s' t t' : List Char} (h : sep ∉ s) (h' : sep ∉ s')
    (heq : s ++ sep :: t = s' ++ sep :: t') : s = s' ∧ t = t' := by
  have hpieces := congrArg (splitAt sep) heq
  rw [splitAt_append h, splitAt_append h'] at hpieces
  have hs : s = s' := (List.cons.inj hpieces).1
  rw [hs] at heq
  exact ⟨hs, (List.cons.inj (List.append_cancel_left heq)).2⟩

theorem eq_of_last_eq {sep : Char} {s s' t t' : List Char} (h : sep ∉ t) (h' : sep ∉ t')
    (heq : s ++ sep :: t = s' ++ sep :: t') : s = s' ∧ t = t' := by
  have hback := congrArg List.reverse heq
  rw [List.reverse_append, List.reverse_cons, List.append_assoc, List.singleton_append,
    List.reverse_append, List.reverse_cons, List.append_assoc, List.singleton_append] at hback
  obtain ⟨ht, hs⟩ := eq_of_first_eq (mt List.mem_reverse.1 h) (mt List.mem_reverse.1 h') hback
  exact ⟨List.reverse_injective hs, List.reverse_injective ht⟩

end WasmBindings.Text

namespace WasmBindings.Signature

open Text

def opens (c : Char) : Bool := c ∈ ['(', '<', '[']

def closes (c : Char) : Bool := c ∈ [')', '>', ']']

def depthAfter (depth : Nat) (c : Char) : Nat :=
  if opens c then depth + 1 else if closes c then depth - 1 else depth

/-- From a depth on, no bracket is closed that was not opened, all are closed in the end, and
commas stand inside of brackets only. -/
def Nests : Nat → List Char → Prop
  | depth, [] => depth = 0
  | depth, c :: r => (closes c ∨ c = ',' → 0 < depth) ∧ Nests (depthAfter depth c) r

instance Nests.decidable : (depth : Nat) → (s : List Char) → Decidable (Nests depth s)
  | depth, [] => inferInstanceAs (Decidable (depth = 0))
  | depth, c :: r =>
    have := Nests.decidable (depthAfter depth c) r
    inferInstanceAs (Decidable ((closes c ∨ c = ',' → 0 < depth) ∧ Nests (depthAfter depth c) r))

def cut : Nat → List Char → List (List Char)
  | _, [] => [[]]
  | depth, c :: r =>
    if c = ',' ∧ depth = 0 then [] :: cut 0 r else consHead c (cut (depthAfter depth c) r)

theorem cut_cons_of_nests {depth : Nat} {c : Char} {r : List Char} (h : Nests depth (c :: r))
    (s : List Char) : cut depth (c :: s) = consHead c (cut (depthAfter depth c) s) := by
  have hinside : ¬ (c = ',' ∧ depth = 0) := by
    rintro ⟨hc, hdepth⟩
    have := h.1 (.inr hc)
    omega
  rw [cut, if_neg hinside]

theorem cut_of_nests {depth : Nat} {s : List Char} (h : Nests depth s) : cut depth s = [s] := by
  induction s generalizing depth with
  | nil => rfl
  | cons c r ih => rw [cut_cons_of_nests h, ih h.2, consHead]

theorem cut_append {depth : Nat} {s : List Char} (h : Nests depth s) (t : List Char) :
    cut depth (s ++ ',' :: t) = s :: cut 0 t := by
  induction s generalizing depth with
  | nil =>
    cases h
    simp [cut]
  | cons c r ih => rw [List.cons_append, cut_cons_of_nests h, ih h.2, consHead]

theorem cut_intercalate {types : List (List Char)} (hne : types ≠ [])
    (h : ∀ s ∈ types, Nests 0 s) : cut 0 ([','].intercalate types) = types := by
  induction types with
  | nil => exact absurd rfl hne
  | cons s types ih =>
    have hs := h s List.mem_cons_self
    cases types with
    | nil => simpa using cut_of_nests hs
    | cons t types =>
      have hrest := ih (List.cons_ne_nil t types) fun s hs => h s (List.mem_cons_of_mem _ hs)
      rw [List.intercalate_cons_cons, List.append_assoc, List.singleton_append, cut_append hs,
        hrest]

structure Listable (type : List Char) : Prop where
  nonempty : type ≠ []
  nests : Nests 0 type

instance (type : List Char) : Decidable (Listable type) :=
  decidable_of_iff (type ≠ [] ∧ Nests 0 type) ⟨fun h => ⟨h.1, h.2⟩, fun h => ⟨h.1, h.2⟩⟩

theorem intercalate_eq_nil {types : List (List Char)} (h : ∀ s ∈ types, Listable s)
    (hnil : [','].intercalate types = []) : types = [] := by
  cases types with
  | nil => rfl
  | cons s types =>
    have hs := (h s List.mem_cons_self).nonempty
    cases types with
    | nil => exact absurd (by simpa using hnil) hs
    | cons t types => simp [List.intercalate_cons_cons] at hnil

theorem eq_of_intercalate_eq {types types' : List (List Char)} (h : ∀ s ∈ types, Listable s)
    (h' : ∀ s ∈ types', Listable s)
    (heq : [','].intercalate types = [','].intercalate types') : types = types' := by
  by_cases hne : types = []
  · subst hne
    exact (intercalate_eq_nil h' heq.symm).symm
  · have hne' : types' ≠ [] := by
      rintro rfl
      exact hne (intercalate_eq_nil h heq)
    rw [← cut_intercalate hne fun s hs => (h s hs).nests, heq,
      cut_intercalate hne' fun s hs => (h' s hs).nests]

structure Readable (name : String) (types : List String) : Prop where
  name : '(' ∉ name.toList
  types : ∀ type ∈ types, Listable (Spelling.normalize type).toList

instance (name : String) (types : List String) : Decidable (Readable name types) :=
  decidable_of_iff
    ('(' ∉ name.toList ∧ ∀ type ∈ types, Listable (Spelling.normalize type).toList)
    ⟨fun h => ⟨h.1, h.2⟩, fun h => ⟨h.1, h.2⟩⟩

theorem toList_key (name : String) (types : List String) :
    (key name types).toList = name.toList ++ '(' ::
      ([','].intercalate (types.map fun type => (Spelling.normalize type).toList) ++ [')']) := by
  simp [key, String.toList_intercalate, Function.comp_def]

theorem eq_of_key_eq {name name' : String} {types types' : List String}
    (h : Readable name types) (h' : Readable name' types')
    (heq : key name types = key name' types') :
    name = name' ∧ types.map Spelling.normalize = types'.map Spelling.normalize := by
  have hchars := congrArg String.toList heq
  rw [toList_key, toList_key] at hchars
  obtain ⟨hname, hlist⟩ := eq_of_first_eq h.name h'.name hchars
  have hlisted : ∀ {ts : List String}, (∀ t ∈ ts, Listable (Spelling.normalize t).toList) →
      ∀ s ∈ ts.map fun t => (Spelling.normalize t).toList, Listable s := by
    intro ts hts s hs
    obtain ⟨t, ht, rfl⟩ := List.mem_map.1 hs
    exact hts t ht
  have htypes := eq_of_intercalate_eq (hlisted h.types) (hlisted h'.types)
    (List.append_cancel_right hlist)
  refine ⟨String.toList_inj.1 hname, ?_⟩
  have hback := congrArg (List.map String.ofList) htypes
  simpa [Function.comp_def] using hback

theorem toList_arityKey (name : String) (count : Nat) :
    (arityKey name count).toList = name.toList ++ '#' :: (toString count).toList := by
  simp [arityKey]

theorem eq_of_arityKey_eq {name name' : String} {count count' : Nat}
    (heq : arityKey name count = arityKey name' count') : name = name' ∧ count = count' := by
  have hdigits : ∀ n : Nat, '#' ∉ (toString n).toList := by
    intro n
    rw [Nat.toString_eq_ofList_toDigits, String.toList_ofList]
    exact not_mem_toDigits (by decide) n
  have hchars := congrArg String.toList heq
  rw [toList_arityKey, toList_arityKey] at hchars
  obtain ⟨hname, hcount⟩ := eq_of_last_eq (hdigits count) (hdigits count') hchars
  exact ⟨String.toList_inj.1 hname, eq_of_toString_eq (String.toList_inj.1 hcount)⟩

/-- Two methods have one key just when they agree in what it is made from. -/
theorem keys_determine :
    (∀ (name name' : String) (types types' : List String),
      Readable name types → Readable name' types' →
      (key name types = key name' types' ↔
        name = name' ∧ types.map Spelling.normalize = types'.map Spelling.normalize)) ∧
    ∀ (name name' : String) (count count' : Nat),
      arityKey name count = arityKey name' count' ↔ name = name' ∧ count = count' := by
  constructor
  · intro name name' types types' h h'
    constructor
    · exact eq_of_key_eq h h'
    · rintro ⟨rfl, htypes⟩
      rw [key, key, htypes]
  · intro name name' count count'
    constructor
    · exact eq_of_arityKey_eq
    · rintro ⟨rfl, rfl⟩
      rfl

theorem keys_determine_setTable :
    Readable "SetTable" ["std::map<int, double>", "void (*)(int)"] ∧
    Readable "SetTable" ["std::map< int,double >", "void  (*)(int)"] ∧
    Readable "SetTable" ["std::map<int, void (*)(int)>", "double"] ∧
    ["std::map<int, double>", "void (*)(int)"].map Spelling.normalize =
      ["std::map< int,double >", "void  (*)(int)"].map Spelling.normalize ∧
    key "SetTable" ["std::map<int, double>", "void (*)(int)"] ≠
      key "SetTable" ["std::map<int, void (*)(int)>", "double"] := by
  have hread : Readable "SetTable" ["std::map<int, double>", "void (*)(int)"] := by
    decide +kernel
  have hread' : Readable "SetTable" ["std::map< int,double >", "void  (*)(int)"] := by
    decide +kernel
  have hother : Readable "SetTable" ["std::map<int, void (*)(int)>", "double"] := by
    decide +kernel
  have hkey : key "SetTable" ["std::map<int, double>", "void (*)(int)"] =
      key "SetTable" ["std::map< int,double >", "void  (*)(int)"] := by decide +kernel
  refine ⟨hread, hread', hother, (keys_determine.1 _ _ _ _ hread hread').1 hkey |>.2, ?_⟩
  intro heq
  have htypes := ((keys_determine.1 _ _ _ _ hread hother).1 heq).2
  exact absurd htypes (by decide +kernel)

end WasmBindings.Signature
