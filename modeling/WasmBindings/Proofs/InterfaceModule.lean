import WasmBindings.Proofs.RelativePath

namespace WasmBindings

namespace Path

open Text

def IsRelative (specifier : String) : Prop :=
  specifier = "." ∨ specifier = ".." ∨ "./".toList <+: specifier.toList ∨
    "../".toList <+: specifier.toList

instance (specifier : String) : Decidable (IsRelative specifier) :=
  inferInstanceAs (Decidable (_ ∨ _ ∨ _ ∨ _))

def specifier (way : List String) : String :=
  if way = [] then "."
  else
    let path := String.intercalate "/" way
    if path.toList.head? == some '.' then path else "./" ++ path

theorem head?_splitAt {sep : Char} {p s : List Char} (h : sep ∉ p) :
    (splitAt sep s).head? = some p ↔ s = p ∨ p ++ [sep] <+: s := by
  constructor
  · intro hhead
    obtain ⟨ps, hps⟩ := List.head?_eq_some_iff.1 hhead
    rw [← intercalate_splitAt sep s, hps]
    cases ps with
    | nil => exact .inl List.intercalate_singleton
    | cons q ps =>
      rw [List.intercalate_cons_cons]
      exact .inr (List.prefix_append _ _)
  · rintro (rfl | ⟨t, rfl⟩)
    · rw [splitAt_of_not_mem h, List.head?_cons]
    · rw [List.append_assoc, List.singleton_append, splitAt_append h, List.head?_cons]

theorem isRelative_iff {m : String} : IsRelative m ↔
    (splitAt '/' m.toList).head? = some ".".toList ∨
      (splitAt '/' m.toList).head? = some "..".toList := by
  have hhere : ".".toList ++ ['/'] = "./".toList := rfl
  have hup : "..".toList ++ ['/'] = "../".toList := rfl
  rw [head?_splitAt (by decide), head?_splitAt (by decide), String.toList_inj, String.toList_inj,
    hhere, hup, IsRelative]
  tauto

section Specifier

variable {way dirs : List String} {n : String}

theorem specifier_cases (way : List String) :
    (way ≠ [] ∧ (String.intercalate "/" way).toList.head? = some '.' ∧
      specifier way = String.intercalate "/" way) ∨
    ((String.intercalate "/" way).toList.head? ≠ some '.' ∧
      specifier way = String.intercalate "/" ("." :: way)) := by
  by_cases hne : way = []
  · rw [hne]
    exact .inr ⟨by decide, rfl⟩
  · by_cases hdot : (String.intercalate "/" way).toList.head? = some '.'
    · refine .inl ⟨hne, hdot, ?_⟩
      rw [specifier, if_neg hne]
      exact if_pos (beq_iff_eq.2 hdot)
    · refine .inr ⟨hdot, ?_⟩
      rw [String.intercalate_cons_of_ne_nil hne, specifier, if_neg hne]
      exact if_neg (mt beq_iff_eq.1 hdot)

theorem head?_intercalate (hn : n ≠ "") (rest : List String) :
    (String.intercalate "/" (n :: rest)).toList.head? = n.toList.head? := by
  obtain ⟨c, s, hs⟩ := List.exists_cons_of_ne_nil (l := n.toList) (by simpa using hn)
  cases rest with
  | nil => rw [String.intercalate_singleton]
  | cons m rest => simp [hs]

theorem isRelative_specifier_cons (h : ∀ m ∈ n :: way, IsStep m) (hdot : n ≠ ".") :
    IsRelative (specifier (n :: way)) ↔ (n.toList.head? = some '.' → n = "..") := by
  have hhead := head?_intercalate (h n List.mem_cons_self).nonempty way
  rcases specifier_cases (n :: way) with ⟨hne, hstarts, heq⟩ | ⟨hstarts, heq⟩
  · rw [heq, isRelative_iff, splitAt_names hne h, List.map_cons, List.head?_cons, Option.some_inj,
      Option.some_inj, String.toList_inj, String.toList_inj, or_iff_right hdot, ← hhead]
    exact (imp_iff_right hstarts).symm
  · rw [heq, isRelative_iff, splitAt_names (List.cons_ne_nil _ _)
      (List.forall_mem_cons.2 ⟨isStep_dot, h⟩), List.map_cons, List.head?_cons, ← hhead]
    exact iff_of_true (.inl rfl) fun hstarts' => absurd hstarts' hstarts

theorem components_join_specifier (hdirs : ∀ m ∈ dirs, IsStep m) (h : ∀ m ∈ way, IsStep m) :
    ∃ names, components (join (String.intercalate "/" dirs) (specifier way)) = dirs ++ names ∧
      ∀ here, normalFrom here names = normalFrom here way := by
  rcases specifier_cases way with ⟨hne, -, heq⟩ | ⟨-, heq⟩
  · refine ⟨way, ?_, fun _ => rfl⟩
    rw [heq, ← ofNames, components_ofNames _ hne h, components_intercalate hdirs]
  · refine ⟨"." :: way, ?_, fun here => ?_⟩
    · rw [heq, ← ofNames, components_ofNames _ (List.cons_ne_nil _ _)
        (List.forall_mem_cons.2 ⟨isStep_dot, h⟩), components_intercalate hdirs]
    · rw [normalFrom, if_pos BEq.rfl]

end Specifier

section Resolve

variable {names : List String}

theorem intercalate_eq_empty (h : ∀ n ∈ names, IsStep n) :
    String.intercalate "/" names = "" ↔ names = [] := by
  constructor
  · intro hempty
    have hcomponents := components_intercalate h
    rw [hempty] at hcomponents
    exact hcomponents.symm
  · rintro rfl
    rfl

theorem resolve_names (hne : names ≠ []) (h : ∀ n ∈ names, PlainName n)
    (workingDir : List String) :
    resolve workingDir (String.intercalate "/" names) = workingDir ++ names := by
  have hsteps := isStep_of_plain h
  rw [resolve, isAbsolute_names hne hsteps, components_intercalate hsteps,
    resolveFrom_of_plain _ h]
  rfl

theorem resolve_directory (h : ∀ n ∈ names, PlainName n) (workingDir : List String) :
    resolve workingDir (if String.intercalate "/" names == "" then "."
      else String.intercalate "/" names) = workingDir ++ names := by
  have hempty := intercalate_eq_empty (isStep_of_plain h)
  by_cases hne : names = []
  · rw [if_pos (beq_iff_eq.2 (hempty.2 hne)), hne, List.append_nil]
    rfl
  · rw [if_neg (mt (beq_iff_eq.trans hempty).1 hne), resolve_names hne h]

theorem relative_names {dirs : List String} (hdirs : ∀ n ∈ dirs, PlainName n) (hne : names ≠ [])
    (hnames : ∀ n ∈ names, PlainName n) (workingDir : List String) :
    relative workingDir (String.intercalate "/" names)
      (if String.intercalate "/" dirs == "" then "." else String.intercalate "/" dirs) =
        .ok (match steps dirs names with
          | [] => "."
          | way => String.intercalate "/" way) := by
  have hsome := mt (intercalate_eq_empty (isStep_of_plain hnames)).1 hne
  rw [relative, if_neg (mt beq_iff_eq.1 hsome), resolve_directory hdirs, resolve_names hne hnames,
    steps_append_append]
  cases steps dirs names <;> rfl

theorem isStep_replicate_append (k : Nat) (h : ∀ n ∈ names, IsStep n) :
    ∀ n ∈ List.replicate k ".." ++ names, IsStep n := by
  intro n hn
  rcases List.mem_append.1 hn with hn | hn
  · exact List.eq_of_mem_replicate hn ▸ isStep_dots
  · exact h n hn

theorem isStep_steps (start : List String) (h : ∀ n ∈ names, IsStep n) :
    ∀ n ∈ steps start names, IsStep n := by
  obtain ⟨shared, up, down, -, rfl, hsteps, -⟩ := exists_steps start names
  rw [hsteps]
  exact isStep_replicate_append _ fun n hn => h n (List.mem_append_right _ hn)

end Resolve

section Way

variable {dirs names : List String}

theorem exists_stemLast_cons (n : String) (rest : List String) :
    ∃ m rest', stemLast (n :: rest) = m :: rest' ∧ m.toList.head? = n.toList.head? := by
  cases rest with
  | nil => exact ⟨stem n, [], rfl, head?_stem n⟩
  | cons m rest => exact ⟨n, stemLast (m :: rest), rfl, rfl⟩

theorem isStep_stemLast_steps (dirs : List String) (hnames : ∀ n ∈ names, PlainName n) :
    ∀ n ∈ stemLast (steps dirs names), IsStep n := by
  obtain ⟨shared, up, down, -, rfl, hsteps, -⟩ := exists_steps dirs names
  have hdown := plainName_of_mem_stemLast fun n hn => hnames n (List.mem_append_right _ hn)
  rw [hsteps, stemLast_replicate_append]
  exact isStep_replicate_append _ (isStep_of_plain hdown)

theorem isRelative_steps (hnames : ∀ n ∈ names, PlainName n) :
    IsRelative (specifier (stemLast (steps dirs names))) ↔
      ¬∃ name rest, names = dirs ++ name :: rest ∧ name.toList.head? = some '.' := by
  have hway := isStep_stemLast_steps dirs hnames
  obtain ⟨shared, up, down, rfl, rfl, hsteps, hapart⟩ := exists_steps dirs names
  have hdown := plainName_of_mem_stemLast fun n hn => hnames n (List.mem_append_right _ hn)
  rw [hsteps, stemLast_replicate_append] at hway ⊢
  cases up with
  | cons u up =>
    refine iff_of_true ((isRelative_specifier_cons hway (by decide)).2 fun _ => rfl) ?_
    rintro ⟨name, rest, hcut, -⟩
    rw [List.append_assoc] at hcut
    have hsame := List.append_cancel_left hcut
    exact hapart u rfl (by rw [hsame]; rfl)
  | nil =>
    rw [List.append_nil]
    cases down with
    | nil =>
      refine iff_of_true (.inl rfl) ?_
      rintro ⟨name, rest, hcut, -⟩
      simp at hcut
    | cons d rest =>
      obtain ⟨m, rest', hstem, hhead⟩ := exists_stemLast_cons d rest
      rw [hstem] at hdown
      have hm := hdown m List.mem_cons_self
      rw [List.length_nil, List.replicate_zero, List.nil_append, hstem] at hway ⊢
      rw [isRelative_specifier_cons hway hm.noDot, hhead]
      simp [hm.noDots]

theorem normalFrom_steps {shared up down : List String} (hshared : ∀ n ∈ shared ++ up, PlainName n)
    (hdown : ∀ n ∈ down, PlainName n) :
    normalFrom [] (shared ++ up ++ (List.replicate up.length ".." ++ down)) = shared ++ down := by
  rw [normalFrom_append, normalFrom_of_plain _ hshared, normalFrom_append, List.nil_append,
    normalFrom_replicate shared fun n hn => hshared n (List.mem_append_right _ hn),
    normalFrom_of_plain _ hdown]

theorem normal_join_steps (hdirs : ∀ n ∈ dirs, PlainName n) (hne : names ≠ [])
    (hnames : ∀ n ∈ names, PlainName n) :
    normal (join (String.intercalate "/" dirs) (specifier (stemLast (steps dirs names)))) =
        withoutExtension (String.intercalate "/" names) ↔
      ¬(names <+: dirs ∧
        withoutExtension (String.intercalate "/" names) ≠ String.intercalate "/" names) := by
  obtain ⟨way, hcomponents, hnormal⟩ :=
    components_join_specifier (isStep_of_plain hdirs) (isStep_stemLast_steps dirs hnames)
  have hwithout := withoutExtension_eq hne (isStep_of_plain hnames)
  rw [hwithout]
  obtain ⟨shared, up, down, rfl, rfl, hsteps, hapart⟩ := exists_steps dirs names
  have hdown := plainName_of_mem_stemLast fun n hn => hnames n (List.mem_append_right _ hn)
  have hreached : normalFrom [] (shared ++ up ++ way) = shared ++ stemLast down := by
    rw [normalFrom_append, hnormal, ← normalFrom_append, hsteps, stemLast_replicate_append,
      normalFrom_steps hdirs hdown]
  rw [← hcomponents] at hreached
  cases down with
  | nil =>
    -- the extension is still there
    rw [List.append_nil] at hne ⊢
    rw [normal_eq (by rwa [stemLast, List.append_nil] at hreached) hne]
    simp [eq_comm]
  | cons d rest =>
    have hstem := stemLast_append shared (List.cons_ne_nil d rest)
    rw [← hstem] at hreached
    refine iff_of_true (normal_eq hreached (stemLast_ne_nil hne)) ?_
    rintro ⟨hbelow, -⟩
    obtain ⟨s, hs⟩ := (List.prefix_append_right_inj shared).1 hbelow
    exact hapart d (by rw [← hs]; rfl) rfl

end Way

end Path

open WasmBindings.Path

namespace ClassConfig

variable {config : ClassConfig}

/-- The names down to the interface start with a dot. -/
def Hidden (config : ClassConfig) : Prop :=
  ∃ name rest, components config.interfaceOutput =
    components (dirName config.apiOutput) ++ name :: rest ∧ name.toList.head? = some '.'

/-- The interface, with its extension, is the directory of the API class or one above it. -/
def Encloses (config : ClassConfig) : Prop :=
  components config.interfaceOutput <+: components (dirName config.apiOutput) ∧
    withoutExtension config.interfaceOutput ≠ config.interfaceOutput

theorem interfaceModule_eq {dirs names : List String} {name : String}
    (hdirs : ∀ n ∈ dirs, PlainName n) (hname : PlainName name) (hne : names ≠ [])
    (hnames : ∀ n ∈ names, PlainName n)
    (hinterface : config.interfaceOutput = String.intercalate "/" names)
    (hapi : config.apiOutput = String.intercalate "/" (dirs ++ [name])) (workingDir : List String) :
    config.interfaceModule workingDir = .ok (specifier (stemLast (steps dirs names))) := by
  rw [interfaceModule, hapi, hinterface, dirName_intercalate (isStep_of_plain hdirs) hname.noSlash]
  simp only [relative_names hdirs hne hnames workingDir]
  have hway := isStep_steps dirs (isStep_of_plain hnames)
  cases hsteps : steps dirs names with
  | nil => rfl
  | cons c cs =>
    rw [hsteps] at hway
    have hstem : specifier (stemLast (c :: cs)) = _ :=
      if_neg (stemLast_ne_nil (List.cons_ne_nil c cs))
    rw [hstem, ← withoutExtension_eq (List.cons_ne_nil c cs) hway]
    rfl

/-- The specifier does not depend on the working directory.  It is a relative one unless a hidden
name leads down to the interface, and it leads to the interface without its extension unless the
interface is a directory around the API class. -/
theorem interfaceModule_exact_iff (hinterface : IsPlain config.interfaceOutput)
    (hapi : IsPlain config.apiOutput) :
    ∃ m, (∀ workingDir, config.interfaceModule workingDir = .ok m) ∧
      (IsRelative m ↔ ¬config.Hidden) ∧
      (normal (join (dirName config.apiOutput) m) = withoutExtension config.interfaceOutput ↔
        ¬config.Encloses) := by
  obtain ⟨names, hne, hnames, hinterface⟩ := hinterface.exists_names
  obtain ⟨file, hfile, hplain, hapi⟩ := hapi.exists_names
  obtain ⟨dirs, name, rfl⟩ := (List.eq_nil_or_concat file).resolve_left hfile
  rw [List.concat_eq_append] at hplain hapi
  have hdirs : ∀ n ∈ dirs, PlainName n := fun n hn => hplain n (List.mem_append_left _ hn)
  have hname : PlainName name := hplain name (by simp)
  have hdir : dirName config.apiOutput = String.intercalate "/" dirs := by
    rw [hapi, dirName_intercalate (isStep_of_plain hdirs) hname.noSlash]
  refine ⟨_, interfaceModule_eq hdirs hname hne hnames hinterface hapi, ?_, ?_⟩
  · rw [Hidden, hinterface, hdir, components_intercalate (isStep_of_plain hnames),
      components_intercalate (isStep_of_plain hdirs)]
    exact isRelative_steps hnames
  · rw [Encloses, hinterface, hdir, components_intercalate (isStep_of_plain hnames),
      components_intercalate (isStep_of_plain hdirs)]
    exact normal_join_steps hdirs hne hnames

def apartTrim : ClassConfig :=
  { new "FGTrim" with interfaceOutput := "src/raw/fgtrim-api.ts", apiOutput := "lib/fgtrim.ts" }

theorem not_hidden_apartTrim : ¬apartTrim.Hidden := by
  have hinterface : components apartTrim.interfaceOutput = ["src", "raw", "fgtrim-api.ts"] := by
    decide
  have hdir : components (dirName apartTrim.apiOutput) = ["lib"] := by decide
  rintro ⟨name, rest, hcut, -⟩
  rw [hinterface, hdir] at hcut
  simp at hcut

theorem interfaceModule_exact_apartTrim :
    IsPlain apartTrim.interfaceOutput ∧ IsPlain apartTrim.apiOutput ∧
      ∃ m, (∀ workingDir, apartTrim.interfaceModule workingDir = .ok m) ∧ IsRelative m ∧
        normal (join (dirName apartTrim.apiOutput) m) = "src/raw/fgtrim-api" := by
  have hinterface : IsPlain apartTrim.interfaceOutput := by decide
  have hapi : IsPlain apartTrim.apiOutput := by decide
  obtain ⟨m, hm, hrelative, hleads⟩ := interfaceModule_exact_iff hinterface hapi
  have hencloses : ¬apartTrim.Encloses := fun h => absurd h.1 (by decide)
  exact ⟨hinterface, hapi, m, hm, hrelative.2 not_hidden_apartTrim, hleads.2 hencloses⟩

def hiddenTrim : ClassConfig :=
  { new "FGTrim" with interfaceOutput := ".gen/fgtrim-api.ts", apiOutput := "wrapper.ts" }

theorem interfaceModule_not_relative_hiddenTrim :
    IsPlain hiddenTrim.interfaceOutput ∧ IsPlain hiddenTrim.apiOutput ∧
      hiddenTrim.interfaceModule [] = .ok ".gen/fgtrim-api" ∧ ¬IsRelative ".gen/fgtrim-api" := by
  decide

end ClassConfig

end WasmBindings
