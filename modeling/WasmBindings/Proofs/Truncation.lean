import WasmBindings.Proofs.Documents

namespace WasmBindings.Documents

open Json

theorem isPrefix_cut (k : Option Cursor) (s t : List Char) : cut k s <+: cut k (s ++ t) := by
  fun_induction cut k s with
  | case1 => exact List.nil_prefix
  | case2 r ih =>
    rw [List.cons_append, cut_none_cons, if_pos rfl]
    exact ih
  | case3 c r hc ih =>
    rw [List.cons_append, cut_none_cons, if_neg hc]
    exact ih
  | case4 k c r hclosed ih =>
    rw [List.cons_append, cut_some_cons, if_pos hclosed]
    exact (List.prefix_cons_inj _).2 ih
  | case5 k c r hopen ih =>
    rw [List.cons_append, cut_some_cons, if_neg hopen]
    exact ih

def begun : Option Cursor → List Char
  | none => []
  | some k => k.taken

theorem taken_next (k : Cursor) (c : Char) : (k.next c).taken = c :: k.taken := by
  simp only [Cursor.next, apply_ite Cursor.taken, ite_self]

theorem length_of_mem_cut {k : Option Cursor} {s d : List Char} (h : d ∈ cut k s) :
    d.length ≤ (begun k).length + s.length := by
  fun_induction cut k s with
  | case1 => cases h
  | case2 r ih =>
    have hd := ih h
    simp only [begun, Cursor.start, List.length_cons, List.length_nil] at hd ⊢
    omega
  | case3 c r hc ih =>
    have hd := ih h
    simp only [List.length_cons]
    omega
  | case4 k c r hclosed ih =>
    rcases List.mem_cons.1 h with rfl | h
    · simp only [Cursor.document, taken_next, begun, List.length_reverse, List.length_cons]
      omega
    · have hd := ih h
      simp only [begun, List.length_nil, List.length_cons] at hd ⊢
      omega
  | case5 k c r hopen ih =>
    have hd := ih h
    simp only [begun, taken_next, List.length_cons] at hd ⊢
    omega

/-- The start of a document, of which at least the last brace is missing. -/
structure CutOff (p : List Char) : Prop where
  opens : p.head? = some '{'
  starts : ∃ d : Printed, p <+: d.text ∧ p ≠ d.text

namespace CutOff

variable {p : List Char}

theorem of_isPrefix {q : List Char} (h : CutOff p) (hq : q <+: p) (hopens : q.head? = some '{') :
    CutOff q where
  opens := hopens
  starts := by
    obtain ⟨d, hp, hne⟩ := h.starts
    refine ⟨d, hq.trans hp, ?_⟩
    rintro rfl
    exact hne (hp.eq_of_length_le hq.length_le)

theorem cut_eq_nil (h : CutOff p) : cut none p = [] := by
  obtain ⟨d, ⟨rest, hd⟩, hne⟩ := h.starts
  have hcut : cut none d.text = [d.text] := by
    simpa [cut] using d.cut_text []
  have hstart := isPrefix_cut none p rest
  rw [hd, hcut, List.prefix_cons_iff] at hstart
  rcases hstart with hnil | ⟨docs, hdocs, -⟩
  · exact hnil
  · -- a document of the whole length would leave nothing to be missing
    have hlength := length_of_mem_cut (hdocs ▸ List.mem_cons_self : d.text ∈ cut none p)
    have hstart : p <+: d.text := ⟨rest, hd⟩
    simp only [begun, List.length_nil, Nat.zero_add] at hlength
    exact absurd (hstart.eq_of_length_le hlength) hne

theorem cut_output (h : CutOff p) (docs : List Printed) :
    cut none (Printed.output docs ++ p) = docs.map (·.text) := by
  rw [Printed.cut_output, h.cut_eq_nil, List.append_nil]

theorem head?_output (h : CutOff p) (docs : List Printed) :
    (Printed.output docs ++ p).head? = some '{' := by
  cases docs with
  | nil => exact h.opens
  | cons d docs => simp [Printed.output, d.opens]

theorem read_output_eq_none (h : CutOff p) (docs : List Printed) :
    Json.read (Printed.output docs ++ p) = none := by
  rw [Option.eq_none_iff_forall_ne_some]
  intro v hread
  obtain ⟨fields, t, gap, -, hs, hgap, hcut⟩ := exists_document (h.head?_output docs) hread
  have htexts : docs.map (·.text) = [t] := by
    rw [← h.cut_output, hs, hcut, cut_gap hgap]
  obtain ⟨d, rfl, rfl⟩ := List.map_eq_singleton_iff.1 htexts
  have hrest : d.gap ++ p = gap := by
    simpa [Printed.output] using hs
  have hbrace : '{' ∈ gap := by
    rw [← hrest]
    exact List.mem_append_right _ (List.mem_of_head? h.opens)
  exact absurd (hgap _ hbrace) (by decide)

theorem exists_trim (h : CutOff p) {lead : List Char}
    (hlead : ∀ c ∈ lead, Text.isBlank c = true) (docs : List Printed) :
    ∃ q, CutOff q ∧
      Text.trim (lead ++ (Printed.output docs ++ p)) = Printed.output docs ++ q := by
  obtain ⟨r, rfl⟩ := List.head?_eq_some_iff.1 h.opens
  refine ⟨'{' :: Text.trimEnd r, h.of_isPrefix ?_ rfl, ?_⟩
  · rw [List.prefix_cons_inj]
    exact Text.isPrefix_trimEnd r
  · rw [Text.trim, Text.trimStart_append hlead,
      Text.trimStart_of_head? (h.head?_output docs) (by decide),
      Text.trimEnd_append_cons (by decide)]

end CutOff

theorem join_eq_none {vs : List Json} : join vs = none ↔ vs = [] := by
  rcases vs with _ | ⟨v, _ | ⟨w, vs⟩⟩ <;> simp [join]

/-- A document that is cut off counts for nothing: the documents before it are accepted without
it, and only where there are none is the output refused. -/
theorem parse_cut_off {lead : List Char} (hlead : ∀ c ∈ lead, Text.isBlank c = true)
    (docs : List Printed) {p : List Char} (hp : CutOff p) :
    parse (String.ofList (lead ++ (Printed.output docs ++ p))) = join (docs.map (·.value)) ∧
      (parse (String.ofList (lead ++ (Printed.output docs ++ p))) = none ↔ docs = []) := by
  obtain ⟨q, hq, htrim⟩ := hp.exists_trim hlead docs
  have hne : Printed.output docs ++ q ≠ [] := by
    intro hnil
    simpa [hnil] using hq.head?_output docs
  have hparse : parse (String.ofList (lead ++ (Printed.output docs ++ p))) =
      join (docs.map (·.value)) := by
    rw [parse_of_trim htrim hne, hq.read_output_eq_none, hq.cut_output, Printed.mapM_read]
    rfl
  refine ⟨hparse, ?_⟩
  rw [hparse, join_eq_none, List.map_eq_nil_iff]

def quoteCutOff : List Char := ['{', '"', 'b', '"', ':', '"', '\\']

theorem cutOff_quoteCutOff : CutOff quoteCutOff where
  opens := rfl
  starts := ⟨quoteInText, ⟨['"', '{', '"', '}'], rfl⟩, by decide⟩

theorem parse_cut_off_twoDocuments :
    parse (String.ofList (['\t'] ++ (Printed.output [braceInText, quoteInText] ++ quoteCutOff))) =
      some (.obj [("kind", .str "ClangAstDocumentSet"),
        ("inner", .arr [.obj [("a", .str "\x7d\\")], .obj [("b", .str "\"\x7b")]])]) :=
  (parse_cut_off (by simp [Text.isBlank]) [braceInText, quoteInText] cutOff_quoteCutOff).1

theorem parse_accepts_cut_off : CutOff quoteCutOff ∧
    parse (String.ofList (braceInText.text ++ quoteCutOff)) =
      some (.obj [("a", .str "\x7d\\")]) := by
  refine ⟨cutOff_quoteCutOff, ?_⟩
  rw [parse, String.toList_ofList]
  rfl

end WasmBindings.Documents
