import DocTree.Proofs.Making

/-! Blank reads through the life of a node. Whatever is done with a node, or with what holds
it, its cache is idle in between, and once set it stays as it is: a read always comes to an
end, all reads of one node answer the same, and its flag is computed at most once. -/
namespace DocTree
open Layout (textCache paragraphCache)

namespace Word

theorem filledKept {c : Cache} {w : Word} (fresh : Bool) (set : w.cached? c ≠ none) :
    (w.filled c fresh).cached? c = w.cached? c := by
  rw [filledSet fresh set]

end Word

namespace Comment

def cache? : Comment → Option Cache
  | .text _ => some textCache
  | .paragraph _ => some paragraphCache
  | _ => none

def cachedBlank? : Comment → Option Bool
  | .text n => n.cachedBlank?
  | .paragraph p => p.cachedBlank?
  | _ => none

structure Ages (c d : Comment) : Prop where
  cache : d.cache? = c.cache?
  fresh : d.freshBlank = c.freshBlank
  kept : c.cachedBlank? ≠ none → d.cachedBlank? = c.cachedBlank?

theorem agesSame (c : Comment) : Ages c c := ⟨rfl, rfl, fun _ => rfl⟩

theorem agesTrans {b c d} (first : Ages b c) (second : Ages c d) : Ages b d := by
  refine ⟨second.cache.trans first.cache, second.fresh.trans first.fresh, fun set => ?_⟩
  have same := first.kept set
  rw [second.kept (same ▸ set), same]

def Keeps (c d : Comment) : Prop :=
  ∀ place n, c.part? place = some n → ∃ k, d.part? place = some k ∧ Ages n k

theorem rereadAges {c d} (h : Reread c d) : Ages c d := by
  induction h with
  | same c => exact agesSame c
  | trans first second left right => exact agesTrans left right
  | text n => exact ⟨rfl, rfl, Word.filledKept _⟩
  | paragraph p => exact ⟨rfl, rfl, Word.filledKept _⟩
  | content inside => exact ⟨rfl, rereadFresh (.content inside), fun _ => rfl⟩
  | command inside => exact ⟨rfl, rfl, fun set => (set rfl).elim⟩

theorem rereadKeeps {c d} (h : Reread c d) : Keeps c d := by
  intro place n here
  have related := rereadPart h place
  rw [here] at related
  generalize there : d.part? place = found at related
  cases related with
  | some reread => exact ⟨_, rfl, rereadAges reread⟩

theorem blankRead {c : Comment} {cache} (kind : c.cache? = some cache)
    (all : Everywhere Cached c) : ∃ next, c.performBlank = .ok (.truth c.freshBlank, next) ∧
      next.cachedBlank? = some c.freshBlank := by
  have own := everywhereOwn all
  cases c with
  | text n =>
    refine ⟨.text n.filled, bindOk.mpr ⟨_, Text.readHolds own, rfl⟩, ?_⟩
    exact Word.filledCached textCacheSound own
  | paragraph p =>
    obtain ⟨q, read, _, header⟩ := paragraphHolds all
    refine ⟨.paragraph q, bindOk.mpr ⟨_, read, rfl⟩, ?_⟩
    show q.header.word.cached? paragraphCache = _
    rw [header]
    exact Word.filledCached paragraphCacheSound own
  | _ => cases kind

end Comment

open Comment

namespace Root

end Root

end DocTree
