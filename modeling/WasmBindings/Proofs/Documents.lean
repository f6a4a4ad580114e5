import WasmBindings.Documents
import WasmBindings.Proofs.Text.Blank

/-!
The scan for the ends of documents and the reader of JSON text recognise the same objects.  What
the reader consumes, the scan crosses without leaving its depth, so the first brace that closes
the scan is the one that closes the object.
-/

namespace WasmBindings.Documents

open Json

def isPlain (c : Char) : Bool := c != '"' && c != '{' && c != '}'

theorem cut_none_cons (c : Char) (r : List Char) :
    cut none (c :: r) = if c = '{' then cut (some (.start c)) r else cut none r := rfl

theorem cut_some_cons (k : Cursor) (c : Char) (r : List Char) :
    cut (some k) (c :: r) = if (k.next c).isClosed then (k.next c).document :: cut none r
      else cut (some (k.next c)) r := rfl

/-- Inside a document the scan crosses `p` and is at the same depth after it.  The flags say
whether it is inside a quoted text before and after. -/
def Leads (before after : Bool) (p : List Char) : Prop :=
  ∀ depth taken rest,
    cut (some ⟨depth + 1, before, false, taken⟩) (p ++ rest) =
      cut (some ⟨depth + 1, after, false, p.reverse ++ taken⟩) rest

namespace Leads

theorem nil (q : Bool) : Leads q q [] := by
  intro depth taken rest
  rfl

theorem append {p q : List Char} {a b c : Bool} (hp : Leads a b p) (hq : Leads b c q) :
    Leads a c (p ++ q) := by
  intro depth taken rest
  rw [List.append_assoc, hp, hq, List.reverse_append, List.append_assoc]

theorem plain {c : Char} (h : isPlain c = true) : Leads false false [c] := by
  intro depth taken rest
  simp only [isPlain, Bool.and_eq_true, bne_iff_ne] at h
  obtain ⟨⟨hquote, hopen⟩, hclose⟩ := h
  simp [cut_some_cons, Cursor.next, Cursor.isClosed, hquote, hopen, hclose]

theorem all {p : List Char} (h : ∀ c ∈ p, isPlain c = true) : Leads false false p := by
  induction p with
  | nil => exact nil false
  | cons c r ih =>
    have hr : ∀ d ∈ r, isPlain d = true := fun d hd => h d (List.mem_cons_of_mem c hd)
    exact (plain (h c List.mem_cons_self)).append (ih hr)

theorem openQuote : Leads false true ['"'] := by
  intro depth taken rest
  simp [cut_some_cons, Cursor.next, Cursor.isClosed]

theorem closeQuote : Leads true false ['"'] := by
  intro depth taken rest
  simp [cut_some_cons, Cursor.next, Cursor.isClosed]

theorem quoted {c : Char} (hc : c ≠ '\\') (hq : c ≠ '"') : Leads true true [c] := by
  intro depth taken rest
  have hquote : (c != '"') = true := bne_iff_ne.2 hq
  simp [cut_some_cons, Cursor.next, Cursor.isClosed, hc, hquote]

theorem escape (c : Char) : Leads true true ['\\', c] := by
  intro depth taken rest
  simp [cut_some_cons, Cursor.next, Cursor.isClosed]

theorem braces {p : List Char} (h : Leads false false p) :
    Leads false false ('{' :: (p ++ ['}'])) := by
  intro depth taken rest
  have hopen : cut (some ⟨depth + 1, false, false, taken⟩) ('{' :: (p ++ '}' :: rest)) =
      cut (some ⟨depth + 1 + 1, false, false, '{' :: taken⟩) (p ++ '}' :: rest) := by
    simp [cut_some_cons, Cursor.next, Cursor.isClosed]
  have hinner := h (depth + 1) ('{' :: taken) ('}' :: rest)
  simp only [List.cons_append, List.append_assoc, List.nil_append]
  rw [hopen, hinner]
  simp [cut_some_cons, Cursor.next, Cursor.isClosed]

end Leads

theorem cut_braces {p : List Char} (h : Leads false false p) (rest : List Char) :
    cut none ('{' :: (p ++ '}' :: rest)) = ('{' :: (p ++ ['}'])) :: cut none rest := by
  have hinner := h 0 ['{'] ('}' :: rest)
  rw [cut_none_cons, if_pos rfl, Cursor.start, hinner]
  simp [cut_some_cons, Cursor.next, Cursor.isClosed, Cursor.document]

theorem ne_brace {f : Char → Bool} (hf : f '{' = false) {gap : List Char}
    (h : ∀ c ∈ gap, f c = true) : ∀ c ∈ gap, c ≠ '{' := by
  rintro c hc rfl
  rw [h _ hc] at hf
  cases hf

theorem cut_skip {gap : List Char} (h : ∀ c ∈ gap, c ≠ '{') (rest : List Char) :
    cut none (gap ++ rest) = cut none rest := by
  induction gap with
  | nil => rfl
  | cons c r ih =>
    have hr : ∀ d ∈ r, d ≠ '{' := fun d hd => h d (List.mem_cons_of_mem c hd)
    rw [List.cons_append, cut_none_cons, if_neg (h c List.mem_cons_self), ih hr]

def Reaches (before after : Bool) (s rest : List Char) : Prop :=
  ∃ p, s = p ++ rest ∧ Leads before after p

namespace Reaches

theorem refl (q : Bool) (s : List Char) : Reaches q q s s := ⟨[], rfl, .nil q⟩

theorem trans {a b c : Bool} {s t u : List Char} (h : Reaches a b s t) (h' : Reaches b c t u) :
    Reaches a c s u := by
  obtain ⟨p, rfl, hp⟩ := h
  obtain ⟨q, rfl, hq⟩ := h'
  exact ⟨p ++ q, by simp, hp.append hq⟩

theorem cons {a b c : Bool} {d : Char} {s t : List Char} (hd : Leads a b [d])
    (h : Reaches b c s t) : Reaches a c (d :: s) t :=
  trans ⟨[d], rfl, hd⟩ h

theorem plain {d : Char} (hd : isPlain d = true) (s : List Char) :
    Reaches false false (d :: s) s :=
  cons (.plain hd) (refl false s)

theorem braces {s rest : List Char} (h : Reaches false false s ('}' :: rest)) :
    Reaches false false ('{' :: s) rest := by
  obtain ⟨p, rfl, hp⟩ := h
  exact ⟨'{' :: (p ++ ['}']), by simp, hp.braces⟩

theorem length_le {a b : Bool} {s rest : List Char} (h : Reaches a b s rest) :
    rest.length ≤ s.length := by
  obtain ⟨p, rfl, -⟩ := h
  simp

theorem dropWhile {f : Char → Bool} (hf : ∀ c, f c = true → isPlain c = true) (s : List Char) :
    Reaches false false s (s.dropWhile f) := by
  induction s with
  | nil => exact refl false []
  | cons c r ih =>
    rw [List.dropWhile_cons]
    split
    · next h => exact cons (.plain (hf c h)) ih
    · exact refl false _

end Reaches

theorem isPlain_of_isGap (c : Char) (h : isGap c = true) : isPlain c = true := by
  simp only [isGap, Bool.or_eq_true, beq_iff_eq] at h
  rcases h with ((rfl | rfl) | rfl) | rfl <;> decide

theorem isPlain_of_isDigit (c : Char) (h : c.isDigit = true) : isPlain c = true := by
  simp only [isPlain, Bool.and_eq_true, bne_iff_ne]
  refine ⟨⟨?_, ?_⟩, ?_⟩ <;> rintro rfl <;> exact absurd h (by decide)

theorem reaches_skipGap (s : List Char) : Reaches false false s (skipGap s) :=
  .dropWhile isPlain_of_isGap s

theorem leads_of_hexValue? {c : Char} {n : Nat} (h : hexValue? c = some n) :
    Leads true true [c] := by
  apply Leads.quoted
  · rintro rfl
    have hnone : hexValue? '\\' = none := by decide
    simp [hnone] at h
  · rintro rfl
    have hnone : hexValue? '"' = none := by decide
    simp [hnone] at h

theorem leads_of_hexUnit? {a b c d : Char} {n : Nat} (h : hexUnit? a b c d = some n) :
    Leads true true [a, b, c, d] := by
  simp only [hexUnit?, Option.bind_eq_bind, Option.bind_eq_some_iff] at h
  obtain ⟨na, ha, nb, hb, nc, hc, nd, hd, -⟩ := h
  have hcd := (leads_of_hexValue? hc).append (leads_of_hexValue? hd)
  exact (leads_of_hexValue? ha).append ((leads_of_hexValue? hb).append hcd)

theorem reaches_of_readCodes {s rest : List Char} {ns : List Nat}
    (h : readCodes s = some (ns, rest)) : Reaches true false s rest := by
  fun_induction readCodes s generalizing ns with
  | case1 =>
    cases h
    exact .cons .closeQuote (.refl false _)
  | case2 a b c d r ih =>
    simp only [Option.bind_eq_bind, Option.bind_eq_some_iff] at h
    obtain ⟨n, hn, ⟨ms, t⟩, ht, h⟩ := h
    cases h
    have hunit : Leads true true ['\\', 'u', a, b, c, d] :=
      (Leads.escape 'u').append (leads_of_hexUnit? hn)
    exact .trans ⟨_, rfl, hunit⟩ (ih ht)
  | case3 e r _ ih =>
    simp only [Option.bind_eq_bind, Option.bind_eq_some_iff] at h
    obtain ⟨n, -, ⟨ms, t⟩, ht, h⟩ := h
    cases h
    exact .trans ⟨_, rfl, .escape e⟩ (ih ht)
  | case4 => cases h
  | case5 c r hquote _ _ hc ih =>
    simp only [Option.bind_eq_bind, Option.bind_eq_some_iff] at h
    obtain ⟨⟨ms, t⟩, ht, h⟩ := h
    cases h
    have hslash : c ≠ '\\' := fun e => hc (.inl e)
    exact .cons (.quoted hslash fun e => hquote e) (ih ht)
  | case6 => cases h

theorem reaches_of_readText {s rest : List Char} {t : String}
    (h : readText s = some (t, rest)) : Reaches true false s rest := by
  simp only [readText, Option.bind_eq_bind, Option.bind_eq_some_iff] at h
  obtain ⟨⟨ns, r⟩, hr, h⟩ := h
  cases h
  exact reaches_of_readCodes hr

theorem reaches_of_readWhole {s ds rest : List Char} (h : readWhole s = some (ds, rest)) :
    Reaches false false s rest := by
  rw [readWhole.eq_def] at h
  split at h
  · cases h
    exact .plain (by decide) _
  · split at h
    · cases h
      exact .dropWhile isPlain_of_isDigit _
    · cases h
  · cases h

theorem reaches_of_readFraction {s ds rest : List Char} (h : readFraction s = some (ds, rest)) :
    Reaches false false s rest := by
  rw [readFraction.eq_def] at h
  split at h
  · split at h
    · cases h
    · cases h
      exact .trans (.plain (by decide) _) (.dropWhile isPlain_of_isDigit _)
  · cases h

theorem reaches_of_readExponent {s rest : List Char} {e : Int}
    (h : readExponent s = some (e, rest)) : Reaches false false s rest := by
  rw [readExponent.eq_def] at h
  split at h
  · next c r =>
    split at h
    · next hc =>
      have hplain : isPlain c = true := by rcases hc with rfl | rfl <;> decide
      refine .trans (.plain hplain r) ?_
      dsimp only at h
      split at h
      · cases h
      · cases h
        refine .trans ?_ (.dropWhile isPlain_of_isDigit _)
        split
        · exact .plain (by decide) _
        · exact .plain (by decide) _
        · exact .refl false _
    · cases h
  · cases h

theorem reaches_of_readNumber {s rest : List Char} {v : Json}
    (h : readNumber s = some (v, rest)) : Reaches false false s rest := by
  simp only [readNumber, Option.bind_eq_bind, Option.bind_eq_some_iff] at h
  obtain ⟨⟨ds, r⟩, hr, h⟩ := h
  have hwhole : Reaches false false s r := by
    refine .trans ?_ (reaches_of_readWhole hr)
    split
    · exact .plain (by decide) _
    · exact .refl false _
  refine .trans hwhole ?_
  dsimp only at h
  split at h
  · cases h
    exact .refl false _
  · next e t he =>
    cases h
    exact reaches_of_readExponent he
  · next ds' t ht =>
    cases h
    refine .trans (reaches_of_readFraction ht) ?_
    cases he : readExponent t with
    | none => exact .refl false _
    | some p => exact reaches_of_readExponent he

theorem reaches_of_readWord {s rest : List Char} {v : Json}
    (h : readWord s = some (v, rest)) : Reaches false false s rest := by
  have hplain : ∀ e ∈ words, ∀ c ∈ e.1, isPlain c = true := by simp [words, isPlain]
  simp only [readWord, List.findSome?_eq_some_iff] at h
  obtain ⟨before, ⟨w, u⟩, after, hw, h, -⟩ := h
  dsimp only at h
  split at h
  · next hp =>
    cases h
    obtain ⟨t, rfl⟩ := List.isPrefixOf_iff_prefix.1 hp
    rw [List.drop_left]
    exact ⟨w, rfl, .all (hplain (w, v) (by simp [hw]))⟩
  · cases h

def ValueReaches (fuel : Nat) : Prop :=
  ∀ s v rest, readValue fuel s = some (v, rest) → Reaches false false s rest

def ItemsReach (fuel : Nat) : Prop :=
  ∀ s vs rest, readItems fuel s = some (vs, rest) → Reaches false false s rest

def FieldsReach (fuel : Nat) : Prop :=
  ∀ s fs rest, readFields fuel s = some (fs, rest) → Reaches false false s ('}' :: rest)

theorem ItemsReach.list {fuel : Nat} (hi : ItemsReach fuel) {s rest : List Char} {v : Json}
    (h : readValue (fuel + 1) ('[' :: s) = some (v, rest)) :
    Reaches false false ('[' :: s) rest := by
  refine .trans (.plain (by decide) s) (.trans (reaches_skipGap s) ?_)
  rw [readValue] at h
  split at h
  · next t ht =>
    cases h
    rw [ht]
    exact .plain (by decide) _
  · simp only [Option.bind_eq_bind, Option.bind_eq_some_iff] at h
    obtain ⟨⟨vs, t⟩, ht, h⟩ := h
    cases h
    exact hi _ _ _ ht

theorem FieldsReach.object {fuel : Nat} (hf : FieldsReach fuel) {s rest : List Char} {v : Json}
    (h : readValue (fuel + 1) ('{' :: s) = some (v, rest)) :
    (∃ fields, v = .obj fields) ∧ Reaches false false s ('}' :: rest) := by
  rw [readValue] at h
  split at h
  · next t ht =>
    cases h
    exact ⟨⟨[], rfl⟩, ht ▸ reaches_skipGap s⟩
  · simp only [Option.bind_eq_bind, Option.bind_eq_some_iff] at h
    obtain ⟨⟨fs, t⟩, ht, h⟩ := h
    cases h
    exact ⟨⟨_, rfl⟩, .trans (reaches_skipGap s) (hf _ _ _ ht)⟩

theorem ValueReaches.succ {fuel : Nat} (hi : ItemsReach fuel) (hf : FieldsReach fuel) :
    ValueReaches (fuel + 1) := by
  intro s v rest h
  have hread := h
  rw [readValue.eq_def] at h
  dsimp only at h
  split at h
  · simp only [Option.bind_eq_bind, Option.bind_eq_some_iff] at h
    obtain ⟨⟨t, u⟩, ht, h⟩ := h
    cases h
    exact .cons .openQuote (reaches_of_readText ht)
  · exact hi.list hread
  · exact .braces (hf.object hread).2
  · rcases Option.or_eq_some_iff.1 h with h | ⟨-, h⟩
    · exact reaches_of_readWord h
    · exact reaches_of_readNumber h

theorem ItemsReach.succ {fuel : Nat} (hv : ValueReaches fuel) (hi : ItemsReach fuel) :
    ItemsReach (fuel + 1) := by
  intro s vs rest h
  rw [readItems] at h
  simp only [Option.bind_eq_bind, Option.bind_eq_some_iff] at h
  obtain ⟨⟨v, r⟩, hr, h⟩ := h
  refine .trans (hv _ _ _ hr) (.trans (reaches_skipGap r) ?_)
  dsimp only at h
  split at h
  · next t ht =>
    cases h
    rw [ht]
    exact .plain (by decide) _
  · next t ht =>
    simp only [Option.bind_eq_some_iff] at h
    obtain ⟨⟨ws, u⟩, hu, h⟩ := h
    cases h
    rw [ht]
    exact .trans (.plain (by decide) t) (.trans (reaches_skipGap t) (hi _ _ _ hu))
  · cases h

theorem FieldsReach.succ {fuel : Nat} (hv : ValueReaches fuel) (hf : FieldsReach fuel) :
    FieldsReach (fuel + 1) := by
  intro s fs rest h
  rw [readFields.eq_def] at h
  dsimp only at h
  split at h
  · simp only [Option.bind_eq_bind, Option.bind_eq_some_iff] at h
    obtain ⟨⟨key, t⟩, ht, h⟩ := h
    refine .cons .openQuote (.trans (reaches_of_readText ht) (.trans (reaches_skipGap t) ?_))
    dsimp only at h
    split at h
    · next t' ht' =>
      simp only [Option.bind_eq_some_iff] at h
      obtain ⟨⟨v, u⟩, hu, h⟩ := h
      rw [ht']
      refine .trans (.plain (by decide) t') (.trans (reaches_skipGap t') ?_)
      refine .trans (hv _ _ _ hu) (.trans (reaches_skipGap u) ?_)
      dsimp only at h
      split at h
      · next u' hu' =>
        cases h
        rw [hu']
        exact .refl false _
      · next u' hu' =>
        simp only [Option.bind_eq_some_iff] at h
        obtain ⟨⟨gs, w⟩, hw, h⟩ := h
        cases h
        rw [hu']
        exact .trans (.plain (by decide) u') (.trans (reaches_skipGap u') (hf _ _ _ hw))
      · cases h
    · cases h
  · cases h

theorem reaches_of_read (fuel : Nat) : ValueReaches fuel ∧ ItemsReach fuel ∧ FieldsReach fuel := by
  induction fuel with
  | zero => simp [ValueReaches, ItemsReach, FieldsReach, readValue, readItems, readFields]
  | succ fuel ih =>
    obtain ⟨hv, hi, hf⟩ := ih
    exact ⟨.succ hi hf, .succ hv hi, .succ hv hf⟩

theorem isGap_of_skipGap_isEmpty {s : List Char} (h : (skipGap s).isEmpty = true) :
    ∀ c ∈ s, isGap c = true := by
  rw [List.isEmpty_iff, skipGap, List.dropWhile_eq_nil_iff] at h
  exact h

/-- What the reader takes for an object is one document for the scan, wherever it stands, and
perhaps white space after it. -/
theorem exists_document {s : List Char} {v : Json} (hs : s.head? = some '{')
    (h : Json.read s = some v) :
    ∃ fields t gap, v = .obj fields ∧ s = t ++ gap ∧ (∀ c ∈ gap, isGap c = true) ∧
      ∀ rest, cut none (t ++ rest) = t :: cut none rest := by
  obtain ⟨r, rfl⟩ := List.head?_eq_some_iff.1 hs
  rw [Json.read] at h
  split at h
  · next w rest hread =>
    split at h
    · next hgap =>
      cases h
      obtain ⟨⟨fields, rfl⟩, p, rfl, hp⟩ := (reaches_of_read _).2.2.object hread
      refine ⟨fields, '{' :: (p ++ ['}']), rest, rfl, by simp, isGap_of_skipGap_isEmpty hgap, ?_⟩
      intro tail
      simpa using cut_braces hp tail
    · cases h
  · cases h

theorem cut_gap {gap : List Char} (h : ∀ c ∈ gap, isGap c = true) : cut none gap = [] := by
  rw [← List.append_nil gap, cut_skip (ne_brace (by decide) h), cut]

theorem length_cut_of_read {s : List Char} {v : Json} (hs : s.head? = some '{')
    (h : Json.read s = some v) : (cut none s).length = 1 := by
  obtain ⟨fields, t, gap, -, hs, hgap, hcut⟩ := exists_document hs h
  rw [hs, hcut, cut_gap hgap, List.length_singleton]

/-- A document as the compiler prints it: the text of one object, with nothing around it, the
value of the text, and the white space up to the next one. -/
structure Printed where
  text : List Char
  value : Json
  gap : List Char
  opens : text.head? = some '{'
  closes : text.getLast? = some '}'
  reads : Json.read text = some value
  blank : ∀ c ∈ gap, Text.isBlank c = true

namespace Printed

def output (docs : List Printed) : List Char := docs.flatMap fun d => d.text ++ d.gap

theorem value_ne_null (d : Printed) : d.value ≠ .null := by
  obtain ⟨fields, t, gap, hv, -⟩ := exists_document d.opens d.reads
  simp [hv]

theorem cut_text (d : Printed) (rest : List Char) :
    cut none (d.text ++ rest) = d.text :: cut none rest := by
  obtain ⟨fields, t, gap, -, ht, hgap, hcut⟩ := exists_document d.opens d.reads
  have hend := d.closes
  rw [ht] at hend ⊢
  -- white space at the end would make the text end in it and not in a brace
  rcases List.eq_nil_or_concat gap with rfl | ⟨g, c, rfl⟩
  · simpa using hcut rest
  · rw [List.concat_eq_append, ← List.append_assoc, List.getLast?_concat] at hend
    cases hend
    exact absurd (hgap '}' (by simp)) (by decide)

theorem cut_output (docs : List Printed) (rest : List Char) :
    cut none (output docs ++ rest) = docs.map text ++ cut none rest := by
  induction docs with
  | nil => rfl
  | cons d docs ih =>
    have hout : output (d :: docs) ++ rest = d.text ++ (d.gap ++ (output docs ++ rest)) := by
      simp [output]
    rw [hout, cut_text, cut_skip (ne_brace (by decide) d.blank), ih, List.map_cons, List.cons_append]

theorem head?_output (docs : List Printed) (last : Printed) :
    (output docs ++ last.text).head? = some '{' := by
  cases docs with
  | nil => exact last.opens
  | cons d docs => simp [output, d.opens]

theorem read_output_eq_none (first : Printed) (docs : List Printed) (last : Printed) :
    Json.read (output (first :: docs) ++ last.text) = none := by
  rw [Option.eq_none_iff_forall_ne_some]
  intro v hread
  have hlength := length_cut_of_read (head?_output (first :: docs) last) hread
  rw [cut_output, ← List.append_nil last.text, cut_text] at hlength
  simp at hlength

theorem trim_output {lead : List Char} (hlead : ∀ c ∈ lead, Text.isBlank c = true)
    (docs : List Printed) (last : Printed) :
    Text.trim (lead ++ output (docs ++ [last])) = output docs ++ last.text := by
  have hout : lead ++ output (docs ++ [last]) =
      lead ++ ((output docs ++ last.text) ++ last.gap) := by
    simp [output]
  have hclose : (output docs ++ last.text).getLast? = some '}' := by
    simp [List.getLast?_append, last.closes]
  rw [hout, Text.trim_append_append hlead last.blank]
  exact Text.trim_of_ends (head?_output docs last) (by decide) hclose (by decide)

theorem mapM_read (docs : List Printed) :
    (docs.map text).mapM Json.read = some (docs.map value) := by
  induction docs with
  | nil => rfl
  | cons d docs ih => simp [d.reads, ih]

theorem text_ne_nil (d : Printed) : d.text ≠ [] := by
  intro h
  simpa [h] using d.opens

end Printed

theorem parse_of_trim {s text : List Char} (hs : Text.trim s = text) (h : text ≠ []) :
    parse (String.ofList s) =
      match Json.read text with
      | some .null => none
      | some v => some v
      | none => ((cut none text).mapM Json.read).bind join := by
  rw [parse, String.toList_ofList, hs]
  split
  · exact absurd rfl h
  · rfl

theorem parse_one {lead : List Char} (hlead : ∀ c ∈ lead, Text.isBlank c = true) (d : Printed) :
    parse (String.ofList (lead ++ Printed.output [d])) = some d.value := by
  have htrim : Text.trim (lead ++ Printed.output [d]) = d.text := Printed.trim_output hlead [] d
  rw [parse_of_trim htrim d.text_ne_nil, d.reads]
  split
  · next h => exact absurd (Option.some.inj h) d.value_ne_null
  · next h => exact h.symm
  · next h => cases h

theorem parse_several {lead : List Char} (hlead : ∀ c ∈ lead, Text.isBlank c = true)
    (first : Printed) (docs : List Printed) (last : Printed) :
    parse (String.ofList (lead ++ Printed.output (first :: docs ++ [last]))) =
      join ((first :: docs ++ [last]).map (·.value)) := by
  have hne : Printed.output (first :: docs) ++ last.text ≠ [] := by simp [last.text_ne_nil]
  have hcut : cut none (Printed.output (first :: docs) ++ last.text) =
      (first :: docs ++ [last]).map (·.text) := by
    rw [Printed.cut_output, ← List.append_nil last.text, Printed.cut_text, cut, List.map_append]
    rfl
  rw [parse_of_trim (Printed.trim_output hlead (first :: docs) last) hne,
    Printed.read_output_eq_none, hcut, Printed.mapM_read]
  rfl

/-- Documents with any white space around them are read one by one, whatever braces, quotes and
backslashes their texts contain. -/
theorem parse_output (lead : List Char) (hlead : ∀ c ∈ lead, Text.isBlank c = true)
    (docs : List Printed) (hdocs : docs ≠ []) :
    cut none (lead ++ Printed.output docs) = docs.map (·.text) ∧
    (∀ d, docs = [d] → parse (String.ofList (lead ++ Printed.output docs)) = some d.value) ∧
    (2 ≤ docs.length → parse (String.ofList (lead ++ Printed.output docs)) =
      some (.obj [("kind", .str "ClangAstDocumentSet"), ("inner", .arr (docs.map (·.value)))])) := by
  refine ⟨?_, ?_, ?_⟩
  · rw [cut_skip (ne_brace (by decide) hlead), ← List.append_nil (Printed.output docs),
      Printed.cut_output, cut, List.append_nil]
  · rintro d rfl
    exact parse_one hlead d
  · intro hlength
    obtain ⟨first, rest, rfl⟩ := List.exists_cons_of_ne_nil hdocs
    rcases List.eq_nil_or_concat rest with rfl | ⟨mid, last, rfl⟩
    · simp at hlength
    · rw [List.concat_eq_append, ← List.cons_append, parse_several hlead]
      cases mid <;> rfl

def braceInText : Printed where
  text := ['{', '"', 'a', '"', ':', '"', '}', '\\', '\\', '"', '}']
  value := .obj [("a", .str "\x7d\\")]
  gap := []
  opens := rfl
  closes := rfl
  reads := rfl
  blank := by simp

def quoteInText : Printed where
  text := ['{', '"', 'b', '"', ':', '"', '\\', '"', '{', '"', '}']
  value := .obj [("b", .str "\"\x7b")]
  gap := ['\n']
  opens := rfl
  closes := rfl
  reads := rfl
  blank := by simp [Text.isBlank]

theorem parse_output_adjacent :
    parse (String.ofList (['\t'] ++ Printed.output [braceInText, quoteInText])) =
      some (.obj [("kind", .str "ClangAstDocumentSet"),
        ("inner", .arr [.obj [("a", .str "\x7d\\")], .obj [("b", .str "\"\x7b")]])]) :=
  (parse_output ['\t'] (by simp [Text.isBlank]) [braceInText, quoteInText] (by simp)).2.2 (by decide)

end WasmBindings.Documents
