import TemplateTidy.Exclude.Path
import TemplateTidy.Proofs.Text.Fields

/-!
# Normal forms of paths

The components of a path in normal form are those it has been resolved to, so that paths can
be compared component by component. What a component does to those above it does not depend
on what lies below them, unless the way leads out of there: so a relative path that stays
inside leads from any directory to its own components below those of the directory.

The deepest path that leads to two others is one of them exactly if that one's components
begin the other's, and two slashes at its front are not kept by it.

Main results: `Path.components_normalize`, `Path.resolved_below`,
`Path.prefix_of_commonPath_eq`, `Path.relative_of_steps_eq`.
-/

namespace TemplateTidy.Path

/-! ## Steps and components -/

/-- The fields of a path that are not empty. -/
def steps (path : Text) : List Text :=
  (Text.fields '/' path).filter (· != [])

/-- The text can be a step of a path. -/
def IsStep (c : Text) : Prop :=
  c ≠ [] ∧ '/' ∉ c

/-- Components are the steps that lead somewhere. -/
theorem components_eq (path : Text) : components path = (steps path).filter (· != ['.']) := by
  rw [components, steps, List.filter_filter]
  exact List.filter_congr fun c _ => Bool.and_comm _ _

/-- Behind a slash new steps begin. -/
theorem steps_append (a b : Text) : steps (a ++ '/' :: b) = steps a ++ steps b := by
  rw [steps, Text.fields_append, List.filter_append]
  rfl

theorem steps_slash (path : Text) : steps ('/' :: path) = steps path :=
  steps_append [] path

/-- Behind a slash new components begin. -/
theorem components_append (a b : Text) :
    components (a ++ '/' :: b) = components a ++ components b := by
  simp only [components_eq, steps_append, List.filter_append]

/-- The steps of a path are steps. -/
theorem isStep_of_mem_steps {path c : Text} (h : c ∈ steps path) : IsStep c := by
  obtain ⟨hmem, hne⟩ := List.mem_filter.mp h
  exact ⟨by simpa using hne, Text.notMem_of_mem_fields hmem⟩

/-- The components of a path are steps, and none of them stays where it is. -/
theorem of_mem_components {path c : Text} (h : c ∈ components path) : IsStep c ∧ c ≠ ['.'] := by
  rw [components_eq] at h
  obtain ⟨hstep, hdot⟩ := List.mem_filter.mp h
  exact ⟨isStep_of_mem_steps hstep, by simpa using hdot⟩

/-- Steps that are no dots are the components. -/
theorem components_of_steps {path : Text} {cs : List Text} (hsteps : steps path = cs)
    (hdot : ∀ c ∈ cs, c ≠ ['.']) : components path = cs := by
  rw [components_eq, hsteps]
  exact List.filter_eq_self.mpr fun c hc => by simpa using hdot c hc

/-- Steps that are joined are taken again. -/
theorem steps_join {cs : List Text} (h : ∀ c ∈ cs, IsStep c) : steps (Text.join ['/'] cs) = cs := by
  by_cases hne : cs = []
  · rw [hne]
    rfl
  · rw [steps, Text.fields_join (fun c hc => (h c hc).2) hne]
    exact List.filter_eq_self.mpr fun c hc => by simpa using (h c hc).1

/-- Joined steps do not begin with a slash. -/
theorem head?_join {cs : List Text} (h : ∀ c ∈ cs, IsStep c) :
    (Text.join ['/'] cs).head? ≠ some '/' := by
  cases cs with
  | nil => exact nofun
  | cons c cs =>
    obtain ⟨⟨hne, hslash⟩, -⟩ := List.forall_mem_cons.mp h
    obtain ⟨d, ds, rfl⟩ := List.exists_cons_of_ne_nil hne
    have hd : d ≠ '/' := fun hd => hslash (hd ▸ List.mem_cons_self ..)
    cases cs <;> simpa [Text.join] using hd

/-- Joining leaves nothing of no steps, and only of that. -/
theorem join_eq_nil_iff {cs : List Text} (h : ∀ c ∈ cs, IsStep c) :
    Text.join ['/'] cs = [] ↔ cs = [] := by
  constructor
  · intro hjoin
    rw [← steps_join h, hjoin]
    rfl
  · rintro rfl
    rfl

/-! ## Normal forms -/

/-- A path is absolute exactly if it begins with a slash. -/
theorem isAbsolute_iff {path : Text} : isAbsolute path = true ↔ path.head? = some '/' := by
  cases path with
  | nil => exact ⟨nofun, nofun⟩
  | cons c cs =>
    rw [isAbsolute, List.isPrefixOf_iff_prefix, List.cons_prefix_cons, List.head?_cons,
      Option.some.injEq]
    exact ⟨fun h => h.1.symm, fun h => ⟨h.symm, List.nil_prefix⟩⟩

/-- Only the front of a path makes it absolute. -/
theorem isAbsolute_append {path : Text} (h : isAbsolute path = true) (rest : Text) :
    isAbsolute (path ++ rest) = true := by
  rw [isAbsolute, List.isPrefixOf_iff_prefix] at h ⊢
  exact h.trans (List.prefix_append path rest)

/-- The slashes that are kept at the front: none of a relative path, and one or two of an absolute
one. -/
theorem leadingSlashes_cases (path : Text) :
    isAbsolute path = false ∧ leadingSlashes path = [] ∨
      isAbsolute path = true ∧
        (leadingSlashes path = ['/'] ∨ leadingSlashes path = ['/', '/']) := by
  unfold leadingSlashes
  split
  · exact .inr ⟨rfl, .inl rfl⟩
  · exact .inr ⟨rfl, .inr rfl⟩
  · exact .inr ⟨rfl, .inl rfl⟩
  · rename_i hslash
    refine .inl ⟨Bool.eq_false_iff.mpr fun habsolute => ?_, rfl⟩
    obtain ⟨rest, rfl⟩ := List.head?_eq_some_iff.mp (isAbsolute_iff.mp habsolute)
    exact hslash rest rfl

/-- Slashes at the front make no steps. -/
theorem steps_leadingSlashes_append (path t : Text) :
    steps (leadingSlashes path ++ t) = steps t := by
  rcases leadingSlashes_cases path with ⟨-, h⟩ | ⟨-, h | h⟩
  · rw [h, List.nil_append]
  · rw [h]
    exact steps_slash t
  · rw [h]
    exact (steps_slash _).trans (steps_slash t)

/-- A step that does not lead up goes one level down. -/
theorem descend_of_ne {c : Text} (hc : c ≠ parent) (rooted : Bool) (above : List Text) :
    descend rooted above c = c :: above :=
  if_pos hc

/-- A step that leads up takes the last component back, unless that leads up too. -/
theorem descend_parent_cons (rooted : Bool) (d : Text) (rest : List Text) :
    descend rooted (d :: rest) parent = if d = parent then parent :: d :: rest else rest :=
  if_neg fun h => h rfl

/-- Resolving adds no components. -/
theorem mem_of_mem_foldl_descend {rooted : Bool} {cs above : List Text} {c : Text}
    (h : c ∈ cs.foldl (descend rooted) above) : c ∈ cs ∨ c ∈ above := by
  induction cs generalizing above with
  | nil => exact .inr h
  | cons d cs ih =>
    rcases ih h with hmem | hmem
    · exact .inl (List.mem_cons_of_mem d hmem)
    -- a step adds its own component at the most
    have hadded : ∀ above', c ∈ d :: above' → c ∈ d :: cs ∨ c ∈ above' := by
      intro above' hmem
      rcases List.mem_cons.mp hmem with rfl | hmem
      · exact .inl (List.mem_cons_self ..)
      · exact .inr hmem
    -- a step up adds nothing, unless there is nothing to leave
    by_cases hd : d = parent
    · subst hd
      cases above with
      | nil =>
        cases rooted with
        | true => cases hmem
        | false => exact hadded [] hmem
      | cons e rest =>
        rw [descend_parent_cons] at hmem
        split at hmem
        · exact hadded _ hmem
        · exact .inr (List.mem_cons_of_mem e hmem)
    · rw [descend_of_ne hd] at hmem
      exact hadded _ hmem

/-- Resolving leaves components of the path only. -/
theorem mem_components_of_mem_resolved {path c : Text} (h : c ∈ resolved path) :
    c ∈ components path := by
  rw [resolved, List.mem_reverse] at h
  rcases mem_of_mem_foldl_descend h with h | h
  · exact h
  · cases h

theorem isStep_of_mem_resolved {path c : Text} (h : c ∈ resolved path) : IsStep c :=
  (of_mem_components (mem_components_of_mem_resolved h)).1

/-- The normal form of an absolute path: its slashes at the front and its components resolved. -/
theorem normalize_of_isAbsolute {path : Text} (h : isAbsolute path = true) :
    normalize path = leadingSlashes path ++ Text.join ['/'] (resolved path) := by
  rcases leadingSlashes_cases path with ⟨hrelative, -⟩ | ⟨-, hslashes | hslashes⟩
  · rw [h] at hrelative
    cases hrelative
  · rw [normalize, hslashes]
    rfl
  · rw [normalize, hslashes]
    rfl

/-- A relative path that names nothing is a dot in normal form. -/
theorem normalize_of_isRelative {path : Text} (h : isAbsolute path = false) :
    normalize path = if resolved path = [] then ['.'] else Text.join ['/'] (resolved path) := by
  rcases leadingSlashes_cases path with ⟨-, hslashes⟩ | ⟨habsolute, -⟩
  · rw [normalize, hslashes, List.nil_append]
    split
    · rename_i hjoin
      rw [if_pos ((join_eq_nil_iff fun c => isStep_of_mem_resolved).mp hjoin)]
    · rename_i hjoin
      rw [if_neg fun hnil => hjoin ((join_eq_nil_iff fun c => isStep_of_mem_resolved).mpr hnil)]
  · rw [h] at habsolute
    cases habsolute

/-- **The components of a normal form** are those the path has been resolved to. -/
theorem components_normalize (path : Text) : components (normalize path) = resolved path := by
  have hdot : ∀ c ∈ resolved path, c ≠ ['.'] := fun c hc =>
    (of_mem_components (mem_components_of_mem_resolved hc)).2
  have hjoined : steps (Text.join ['/'] (resolved path)) = resolved path :=
    steps_join fun c => isStep_of_mem_resolved
  by_cases h : isAbsolute path = true
  · rw [normalize_of_isAbsolute h]
    exact components_of_steps ((steps_leadingSlashes_append path _).trans hjoined) hdot
  · rw [normalize_of_isRelative (Bool.eq_false_iff.mpr h)]
    split
    · -- the dot that stands for no components is none itself
      rename_i hnil
      rw [hnil]
      rfl
    · exact components_of_steps hjoined hdot

/-- The steps of a normal form are the components resolved. -/
theorem steps_normalize {path : Text} (h : isAbsolute path = true) :
    steps (normalize path) = resolved path := by
  rw [normalize_of_isAbsolute h, steps_leadingSlashes_append,
    steps_join fun c => isStep_of_mem_resolved]

/-- The normal form is absolute exactly if the path is. -/
theorem isAbsolute_normalize (path : Text) : isAbsolute (normalize path) = isAbsolute path := by
  rcases leadingSlashes_cases path with ⟨hrelative, -⟩ | ⟨habsolute, h | h⟩
  · rw [normalize_of_isRelative hrelative, hrelative]
    split
    · rfl
    · rw [Bool.eq_false_iff, ne_eq, isAbsolute_iff]
      exact head?_join fun c => isStep_of_mem_resolved
  · rw [normalize_of_isAbsolute habsolute, h, habsolute]
    rfl
  · rw [normalize_of_isAbsolute habsolute, h, habsolute]
    rfl

/-! ## Absolute paths -/

/-- A path below a directory is absolute if one of the two is. -/
theorem isAbsolute_under (directory path : Text) :
    isAbsolute (under directory path) = (isAbsolute path || isAbsolute directory) := by
  rw [under]
  split
  · rename_i h
    rw [h, Bool.true_or]
  · rename_i h
    rw [Bool.not_eq_true] at h
    rw [h, Bool.false_or]
    cases directory with
    | nil => exact h
    | cons c cs => split <;> rfl

/-- In an absolute working directory any path becomes absolute. -/
theorem isAbsolute_absolute (cwd path : Text) :
    isAbsolute (absolute cwd path) = (isAbsolute path || isAbsolute cwd) := by
  rw [absolute, isAbsolute_normalize, isAbsolute_under]

/-- In a working directory every path has an absolute form. -/
theorem isAbsolute_absolute_of_cwd {cwd : Text} (hcwd : isAbsolute cwd = true) (path : Text) :
    isAbsolute (absolute cwd path) = true := by
  rw [isAbsolute_absolute, hcwd, Bool.or_true]

/-- The working directory does not matter to an absolute path. -/
theorem absolute_of_isAbsolute {path : Text} (h : isAbsolute path = true) (cwd : Text) :
    absolute cwd path = normalize path := by
  rw [absolute, under, if_pos h]

/-- From the root on no component leads up. -/
theorem parent_notMem_foldl_descend {cs above : List Text} (h : parent ∉ above) :
    parent ∉ cs.foldl (descend true) above := by
  induction cs generalizing above with
  | nil => exact h
  | cons c cs ih =>
    refine ih ?_
    by_cases hc : c = parent
    · -- a step up takes back the component above, or stays at the root
      subst hc
      cases above with
      | nil => exact List.not_mem_nil
      | cons d rest =>
        rw [List.mem_cons, not_or] at h
        rw [descend_parent_cons, if_neg (Ne.symm h.1)]
        exact h.2
    · rw [descend_of_ne hc, List.mem_cons, not_or]
      exact ⟨Ne.symm hc, h⟩

/-- Components of which none leads up are added one after the other. -/
theorem foldl_descend_of_notMem {rooted : Bool} {cs above : List Text} (h : parent ∉ cs) :
    cs.foldl (descend rooted) above = cs.reverse ++ above := by
  induction cs generalizing above with
  | nil => rfl
  | cons c cs ih =>
    rw [List.mem_cons, not_or] at h
    rw [List.foldl_cons, descend_of_ne (Ne.symm h.1), ih h.2, List.reverse_cons,
      List.append_assoc, List.singleton_append]

/-- An absolute path in normal form is resolved to itself. -/
theorem resolved_normalize {path : Text} (h : isAbsolute path = true) :
    resolved (normalize path) = resolved path := by
  have hparent : parent ∉ resolved path := by
    rw [resolved, h, List.mem_reverse]
    exact parent_notMem_foldl_descend List.not_mem_nil
  rw [resolved, components_normalize, foldl_descend_of_notMem hparent, List.append_nil,
    List.reverse_reverse]

/-! ## Below a directory -/

/-- A way that has led out at its start does not come back. -/
theorem getLast?_foldl_descend {cs above : List Text} (h : above.getLast? = some parent) :
    (cs.foldl (descend false) above).getLast? = some parent := by
  induction cs generalizing above with
  | nil => exact h
  | cons c cs ih =>
    refine ih ?_
    cases above with
    | nil => cases h
    | cons d rest =>
      by_cases hc : c = parent
      · subst hc
        rw [descend_parent_cons]
        split
        · rw [List.getLast?_cons_cons, h]
        · rename_i hd
          -- the way goes up one step, which was not the one that leads out
          cases rest with
          | nil => exact absurd (Option.some.inj h) hd
          | cons e rest => rwa [List.getLast?_cons_cons] at h
      · rw [descend_of_ne hc, List.getLast?_cons_cons, h]

/-- What lies below does not matter to a way that does not lead out there. -/
theorem foldl_descend_append {cs above : List Text} (below : List Text) (habove : parent ∉ above)
    (hinside : (cs.foldl (descend false) above).getLast? ≠ some parent) :
    cs.foldl (descend true) (above ++ below) = cs.foldl (descend false) above ++ below := by
  induction cs generalizing above with
  | nil => rfl
  | cons c cs ih =>
    rw [List.foldl_cons] at hinside
    rw [List.foldl_cons, List.foldl_cons]
    by_cases hc : c = parent
    · subst hc
      cases above with
      | nil =>
        -- this is the step that leads out
        exact absurd (getLast?_foldl_descend rfl) hinside
      | cons d rest =>
        rw [List.mem_cons, not_or] at habove
        have hup : ∀ rooted rest', descend rooted (d :: rest') parent = rest' := by
          intro rooted rest'
          rw [descend_parent_cons, if_neg (Ne.symm habove.1)]
        rw [List.cons_append, hup, hup]
        rw [hup] at hinside
        exact ih habove.2 hinside
    · rw [descend_of_ne hc, descend_of_ne hc, ← List.cons_append]
      rw [descend_of_ne hc] at hinside
      refine ih ?_ hinside
      rw [List.mem_cons, not_or]
      exact ⟨Ne.symm hc, habove⟩

/-- **A path that stays inside leads below the directory** from which it starts. -/
theorem resolved_below {root q : Text} (hroot : isAbsolute root = true)
    (hq : isAbsolute q = false) (hinside : (resolved q).head? ≠ some parent) :
    resolved (root ++ '/' :: q) = resolved root ++ resolved q := by
  rw [resolved, hq, List.head?_reverse] at hinside
  -- the components of the root are what the way starts from
  have happend := foldl_descend_append ((components root).foldl (descend true) [])
    List.not_mem_nil hinside
  rw [resolved, resolved, resolved, isAbsolute_append hroot, hroot, hq, components_append,
    List.foldl_append, ← List.reverse_append, ← happend, List.nil_append]

/-! ## Two paths -/

/-- What two lists have in common begins both. -/
theorem common_begins_both (as bs : List Text) : common as bs <+: as ∧ common as bs <+: bs := by
  induction as generalizing bs with
  | nil => exact ⟨List.prefix_rfl, List.nil_prefix⟩
  | cons a as ih =>
    cases bs with
    | nil => exact ⟨List.nil_prefix, List.prefix_rfl⟩
    | cons b bs =>
      rw [common]
      split
      · rename_i hab
        rw [← hab]
        exact ⟨List.cons_prefix_cons.mpr ⟨rfl, (ih bs).1⟩,
          List.cons_prefix_cons.mpr ⟨rfl, (ih bs).2⟩⟩
      · exact ⟨List.nil_prefix, List.nil_prefix⟩

/-- A list and one that goes on behind it have the whole list in common. -/
theorem common_append (as rest : List Text) : common as (as ++ rest) = as := by
  induction as with
  | nil => cases rest <;> rfl
  | cons a as ih => rw [List.cons_append, common, if_pos rfl, ih]

theorem of_mem_common {a b c : Text} (h : c ∈ common (components a) (components b)) :
    IsStep c ∧ c ≠ ['.'] :=
  of_mem_components ((common_begins_both _ _).1.subset h)

/-- The common path of two paths has the components that both begin with. -/
theorem components_commonPath (a b : Text) :
    components (commonPath a b) = common (components a) (components b) := by
  refine components_of_steps ?_ fun c hc => (of_mem_common hc).2
  rw [commonPath]
  split
  · exact (steps_slash _).trans (steps_join fun c hc => (of_mem_common hc).1)
  · exact steps_join fun c hc => (of_mem_common hc).1

/-- **A path that leads to another one** has components that begin those of the other. -/
theorem prefix_of_commonPath_eq {a b : Text} (h : commonPath a b = a) :
    components a <+: components b := by
  have hcommon := components_commonPath a b
  rw [h] at hcommon
  rw [hcommon]
  exact (common_begins_both _ _).2

/-- Two slashes at the front are not what two paths have in common. -/
theorem commonPath_ne {a b : Text} (ha : ['/', '/'] <+: a) : commonPath a b ≠ a := by
  intro h
  have habsolute : isAbsolute a = true := List.isPrefixOf_iff_prefix.mpr
    ((List.cons_prefix_cons.mpr ⟨rfl, List.nil_prefix⟩).trans ha)
  obtain ⟨rest, hrest⟩ := ha
  rw [commonPath, habsolute, if_pos rfl] at h
  -- what comes behind the first slash would have to begin with another one
  obtain ⟨-, hjoin⟩ := List.cons.inj (h.trans hrest.symm)
  exact head?_join (fun c hc => (of_mem_common hc).1) (congrArg List.head? hjoin)

/-- The way down to a path is what it has beyond the directory. -/
theorem relative_of_steps_eq {cwd base path : Text} {rest : List Text}
    (h : steps (absolute cwd path) = steps (absolute cwd base) ++ rest) :
    relative cwd base path = if rest = [] then ['.'] else Text.join ['/'] rest := by
  have hway : List.replicate ((steps (absolute cwd base)).length -
        (common (steps (absolute cwd base)) (steps (absolute cwd path))).length) parent ++
      (steps (absolute cwd path)).drop
        (common (steps (absolute cwd base)) (steps (absolute cwd path))).length = rest := by
    rw [h, common_append, Nat.sub_self, List.drop_left]
    rfl
  -- the two have the whole directory in common, so the way does not go up
  unfold relative
  dsimp only
  split
  · rename_i hnil
    rw [if_pos (hway.symm.trans hnil)]
  · rename_i hsome
    rw [if_neg fun hnil => hsome (hway.trans hnil)]
    exact congrArg (Text.join ['/']) hway

end TemplateTidy.Path
