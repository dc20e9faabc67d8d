import CodeNav.Proofs.Docstring.Cut
import CodeNav.Proofs.Language.Builtin

/-!
# How the built-in languages are documented

What holds of the comments of every built-in language is checked on the table, row by row, and
carried over to the profiles (`forall_profiles`): **a language documents on one side of its
definitions** (`exists_side`), and the decoration in its block comments stands at the front of a
line or is not there (`isFrontal_of_mem`).
-/

namespace CodeNav

/-- All documentation of a language stands on one side of the definitions. -/
def Profile.DocumentsOn (p : Profile) (side : Placement) : Prop :=
  ∀ style ∈ p.comments, style.placement = side

instance (p : Profile) (side : Placement) : Decidable (p.DocumentsOn side) :=
  inferInstanceAs (Decidable (∀ style ∈ p.comments, style.placement = side))

namespace Builtin

/-- The decoration of a block style is tried at the start of a text only. -/
def frontal (style : CommentStyle) : Bool :=
  style.block.all fun block => block.noise.all (·.regex.isAnchored)

theorem texts_documented : ∀ t ∈ texts, t.read?.all fun p =>
    (p.DocumentsOn .above || p.DocumentsOn .below) && p.comments.all frontal := by
  decide +kernel

section Profile

variable {p : Profile} (hp : p ∈ profiles)

include hp

/-- **A built-in language documents on one side of its definitions.** -/
theorem exists_side : ∃ side, p.DocumentsOn side := by
  have hall := (Bool.and_eq_true_iff.mp (forall_profiles texts_documented p hp)).1
  rcases Bool.or_eq_true_iff.mp hall with h | h
  · exact ⟨.above, of_decide_eq_true h⟩
  · exact ⟨.below, of_decide_eq_true h⟩

theorem isFrontal_of_mem {style : CommentStyle} (hstyle : style ∈ p.comments)
    {block : BlockStyle} (hblock : style.block = some block) : block.IsFrontal := by
  have hall := (Bool.and_eq_true_iff.mp (forall_profiles texts_documented p hp)).2
  have hfrontal := List.all_eq_true.mp hall style hstyle
  rw [frontal, hblock, Option.all_some] at hfrontal
  intro noise hnoise
  rwa [Option.mem_def.mp hnoise, Option.all_some] at hfrontal

end Profile

end Builtin

end CodeNav
