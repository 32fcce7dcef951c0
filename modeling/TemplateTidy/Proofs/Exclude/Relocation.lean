import TemplateTidy.Exclude.Spec
import TemplateTidy.Proofs.Exclude.Path

/-!
# Where a project lives

A file is matched by its way from the root of the project, so what is excluded from a project
stays excluded when the project is moved, and however the way to the file is spelled: the root
drops out of the path, and of the rest only its normal form is left. A file that does not lie
below the root is matched as if there were none.

Main result: `isExcluded_relocates`.
-/

namespace TemplateTidy

namespace Path

/-- A root that paths can be told apart from: it is absolute, and does not have the two slashes
at its front that normal forms keep. -/
structure IsRoot (root : Text) : Prop where
  isAbsolute : isAbsolute root = true
  single : ¬['/', '/'] <+: normalize root

/-- The path is relative and does not lead out of the directory from which it starts. -/
structure StaysInside (path : Text) : Prop where
  isRelative : isAbsolute path = false
  inside : (components (normalize path)).head? ≠ some parent

/-- Another spelling of a path stays inside as well. -/
theorem StaysInside.of_normalize_eq {q q' : Text} (h : StaysInside q)
    (heq : normalize q' = normalize q) : StaysInside q' where
  isRelative := by rw [← isAbsolute_normalize, heq, isAbsolute_normalize, h.isRelative]
  inside := heq ▸ h.inside

/-- The normal form of a root has one slash at the front. -/
theorem IsRoot.normalize_eq {root : Text} (h : IsRoot root) :
    normalize root = '/' :: Text.join ['/'] (resolved root) := by
  have heq := normalize_of_isAbsolute h.isAbsolute
  rcases leadingSlashes_cases root with ⟨hrelative, -⟩ | ⟨-, hslashes | hslashes⟩
  · rw [h.isAbsolute] at hrelative
    cases hrelative
  · rwa [hslashes] at heq
  · rw [hslashes] at heq
    exact absurd ⟨_, heq.symm⟩ h.single

/-- What the root and a path below it have in common is the root. -/
theorem IsRoot.commonPath_below {root path : Text} {below : List Text} (h : IsRoot root)
    (hpath : resolved path = resolved root ++ below) :
    commonPath (normalize root) (normalize path) = normalize root := by
  rw [commonPath, components_normalize, components_normalize, hpath, common_append,
    isAbsolute_normalize, h.isAbsolute, if_pos rfl, h.normalize_eq]
  rfl

/-- The way from a directory to a path below it. -/
theorem relative_below {root path q : Text} (hroot : isAbsolute root = true)
    (hpath : isAbsolute path = true) (hq : isAbsolute q = false)
    (hbelow : resolved path = resolved root ++ resolved q) (cwd : Text) :
    relative cwd (normalize root) (normalize path) = normalize q := by
  -- both are in normal form already, so that seeing them from `cwd` changes nothing
  have hsteps : ∀ {p : Text}, isAbsolute p = true →
      steps (absolute cwd (normalize p)) = resolved p := by
    intro p hp
    have hnormal : isAbsolute (normalize p) = true := (isAbsolute_normalize p).trans hp
    rw [absolute_of_isAbsolute hnormal, steps_normalize hnormal, resolved_normalize hp]
  have hway : steps (absolute cwd (normalize path)) =
      steps (absolute cwd (normalize root)) ++ resolved q := by
    rw [hsteps hpath, hsteps hroot, hbelow]
  rw [relative_of_steps_eq hway, normalize_of_isRelative hq]

end Path

/-! ## The path by which a file is matched -/

/-- With a root the paths are compared, if neither of them is absolute or both are. -/
theorem probePath_of_ne_nil {cwd root path : Text} (hroot : root ≠ [])
    (hsame : Path.isAbsolute (Path.absolute cwd root) = Path.isAbsolute (Path.absolute cwd path)) :
    probePath cwd (some root) path =
      .ok (if Path.commonPath (Path.absolute cwd root) (Path.absolute cwd path) =
          Path.absolute cwd root then
        Path.relative cwd (Path.absolute cwd root) (Path.absolute cwd path)
      else Path.absolute cwd path) := by
  obtain ⟨c, root, rfl⟩ := List.exists_cons_of_ne_nil hroot
  unfold probePath
  simp only [hsame, bne_self_eq_false, Bool.false_eq_true, if_false]
  split <;> rfl

/-- **Below the root a file is matched by its way from there.** -/
theorem probePath_below {root q : Text} (hroot : Path.IsRoot root) (hq : Path.StaysInside q)
    (cwd : Text) : probePath cwd (some root) (root ++ '/' :: q) = .ok (Path.normalize q) := by
  have habsolute := hroot.isAbsolute
  have hpath := Path.isAbsolute_append habsolute ('/' :: q)
  have hne : root ≠ [] := by
    rintro rfl
    cases habsolute
  have hbelow : Path.resolved (root ++ '/' :: q) = Path.resolved root ++ Path.resolved q := by
    have hinside := hq.inside
    rw [Path.components_normalize] at hinside
    exact Path.resolved_below habsolute hq.isRelative hinside
  rw [probePath_of_ne_nil hne, Path.absolute_of_isAbsolute habsolute,
    Path.absolute_of_isAbsolute hpath, if_pos (hroot.commonPath_below hbelow),
    Path.relative_below habsolute hpath hq.isRelative hbelow]
  rw [Path.isAbsolute_absolute, Path.isAbsolute_absolute, habsolute, hpath]

/-- The path lies outside the root: its components do not begin with those of the root, or the
root has two slashes at its front. -/
def LiesOutside (cwd root path : Text) : Prop :=
  ['/', '/'] <+: Path.absolute cwd root ∨
    ¬Path.components (Path.absolute cwd root) <+: Path.components (Path.absolute cwd path)

/-- **Outside the root a file is matched by its absolute path.** -/
theorem probePath_outside {cwd root path : Text} (hcwd : Path.isAbsolute cwd = true)
    (h : LiesOutside cwd root path) :
    probePath cwd (some root) path = .ok (Path.absolute cwd path) := by
  -- so what the two have in common is not the root
  have hcommon : Path.commonPath (Path.absolute cwd root) (Path.absolute cwd path) ≠
      Path.absolute cwd root := by
    intro heq
    rcases h with hslashes | hcomponents
    · exact Path.commonPath_ne hslashes heq
    · exact hcomponents (Path.prefix_of_commonPath_eq heq)
  by_cases hroot : root = []
  · rw [hroot]
    rfl
  · rw [probePath_of_ne_nil hroot, if_neg hcommon]
    rw [Path.isAbsolute_absolute_of_cwd hcwd, Path.isAbsolute_absolute_of_cwd hcwd]

/-! ## Verdicts -/

namespace ExcludeSpec

/-- What a list of patterns says of a file that is matched by a path. -/
def verdict (patterns : List Json) (probe : Text) : Except ExcludeError Bool :=
  ((ofValues patterns).mapError .pattern).map (·.excludesFile probe)

/-- No patterns exclude nothing. -/
theorem verdict_nil (probe : Text) : verdict [] probe = .ok false :=
  rfl

end ExcludeSpec

/-- **The verdict is that of the patterns** on the path by which the file is matched. -/
theorem isExcluded_of_probePath {cwd path probe : Text} {root : Option Text} (hpath : path ≠ [])
    (h : probePath cwd root path = .ok probe) (patterns : List Json) :
    isExcluded cwd patterns root path = ExcludeSpec.verdict patterns probe := by
  obtain ⟨c, path, rfl⟩ := List.exists_cons_of_ne_nil hpath
  cases patterns with
  | nil => exact (ExcludeSpec.verdict_nil probe).symm
  | cons pattern patterns =>
    rw [isExcluded, if_neg (by simp), h, ExcludeSpec.verdict]
    cases ExcludeSpec.ofValues (pattern :: patterns) <;> rfl

/-- A file below a root is judged by the normal form of its way from there. -/
theorem isExcluded_below {root q : Text} (hroot : Path.IsRoot root) (hq : Path.StaysInside q)
    (cwd : Text) (patterns : List Json) :
    isExcluded cwd patterns (some root) (root ++ '/' :: q) =
      ExcludeSpec.verdict patterns (Path.normalize q) :=
  isExcluded_of_probePath (List.append_ne_nil_of_right_ne_nil root (List.cons_ne_nil '/' q))
    (probePath_below hroot hq cwd) patterns

/-- **Exclusion does not depend on where the project lives.** A file below the root is excluded
exactly if the patterns match the normal form of its way from there. So it is excluded from any
other root as well, in any working directory and with any spelling of the same way. A file
outside the root is excluded exactly if it is without a root. -/
theorem isExcluded_relocates (patterns : List Json) :
    (∀ cwd root q : Text, Path.IsRoot root → Path.StaysInside q →
      isExcluded cwd patterns (some root) (root ++ '/' :: q) =
        ((ExcludeSpec.ofValues patterns).mapError .pattern).map
          (·.excludesFile (Path.normalize q))) ∧
    (∀ cwd cwd' root root' q q' : Text, Path.IsRoot root → Path.IsRoot root' →
      Path.StaysInside q → Path.normalize q' = Path.normalize q →
      isExcluded cwd' patterns (some root') (root' ++ '/' :: q') =
        isExcluded cwd patterns (some root) (root ++ '/' :: q)) ∧
    ∀ cwd root path : Text, Path.isAbsolute cwd = true → path ≠ [] → LiesOutside cwd root path →
      isExcluded cwd patterns (some root) path = isExcluded cwd patterns none path := by
  refine ⟨fun cwd root q hroot hq => isExcluded_below hroot hq cwd patterns, ?_, ?_⟩
  · intro cwd cwd' root root' q q' hroot hroot' hq heq
    rw [isExcluded_below hroot hq, isExcluded_below hroot' (hq.of_normalize_eq heq), heq]
  · intro cwd root path hcwd hpath houtside
    have hnone : probePath cwd none path = .ok (Path.absolute cwd path) := rfl
    rw [isExcluded_of_probePath hpath (probePath_outside hcwd houtside),
      isExcluded_of_probePath hpath hnone]

/-- A directory that is excluded below two roots, under two spellings of the way to a file, and
a file beside the root. -/
theorem isExcluded_relocates_vendor :
    isExcluded "/srv".toList [.str "vendor/".toList] (some "/work/./project".toList)
        ("/work/./project".toList ++ '/' :: "sub/../vendor//a.php".toList) = .ok true ∧
      isExcluded [] [.str "vendor/".toList] (some "/home/me/".toList)
        ("/home/me/".toList ++ '/' :: "./vendor/a.php".toList) = .ok true ∧
      isExcluded "/srv".toList [.str "vendor/".toList] (some "/root".toList)
          "/rootfoo/vendor/a.php".toList =
        isExcluded "/srv".toList [.str "vendor/".toList] none "/rootfoo/vendor/a.php".toList := by
  have hwork : Path.IsRoot "/work/./project".toList := ⟨by decide, by decide⟩
  have hhome : Path.IsRoot "/home/me/".toList := ⟨by decide, by decide⟩
  have hvendor : Path.StaysInside "sub/../vendor//a.php".toList := ⟨by decide, by decide⟩
  have hrootfoo : LiesOutside "/srv".toList "/root".toList "/rootfoo/vendor/a.php".toList :=
    Or.inr (by decide)
  obtain ⟨hbelow, hmoved, houtside⟩ := isExcluded_relocates [.str "vendor/".toList]
  have hverdict := hbelow "/srv".toList _ _ hwork hvendor
  have hexcluded : ((ExcludeSpec.ofValues [.str "vendor/".toList]).mapError .pattern).map
      (·.excludesFile (Path.normalize "sub/../vendor//a.php".toList)) =
        (.ok true : Except ExcludeError Bool) := by
    with_unfolding_all rfl
  refine ⟨hverdict.trans hexcluded, ?_, ?_⟩
  · rw [hmoved "/srv".toList [] _ _ _ _ hwork hhome hvendor (by decide), hverdict, hexcluded]
  · exact houtside "/srv".toList "/root".toList "/rootfoo/vendor/a.php".toList (by decide)
      (by decide) hrootfoo

end TemplateTidy
