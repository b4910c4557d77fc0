import DocTree.Proofs.BlankReads

/-! Which caches one blank read of a paragraph fills: that of the paragraph and those of the texts
it looks at, which end with the first child that is not a blank text. A paragraph that knows its
answer looks at nothing. -/
namespace DocTree.Comment
open Layout (textCache paragraphCache)

def filledText : Comment → Comment
  | .text n => .text n.filled
  | c => c

theorem scannedAt (content : List Comment) (j : Nat) :
    (scanned content)[j]? = if (content.take j).all isBlankText then content[j]?.map filledText
      else content[j]? := by
  induction content generalizing j with
  | nil => simp [scanned]
  | cons c rest ih =>
    cases j with
    | zero => cases c <;> rfl
    | succ j =>
      cases c with
      | text n =>
        cases blank : isBlank n.text with
        | true => simpa [scanned, isBlankText, blank] using ih j
        | false => simp [scanned, isBlankText, blank]
      | _ => simp [scanned, isBlankText]

variable {p : Paragraph Comment}

theorem partBelow {c n : Comment} {place : List Nat} (here : c.part? place = some n)
    (rest : List Nat) : c.part? (place ++ rest) = n.part? rest := by
  induction place generalizing c with
  | nil => cases here; rfl
  | cons i place ih =>
    obtain ⟨d, held, inside⟩ := Option.bind_eq_some_iff.mp here
    simp only [List.cons_append, part?, held, Option.bind_some]
    exact ih inside

theorem modifySame {cs : List Comment} {F : Comment → Comment} {i : Nat} {c}
    (held : cs[i]? = some c) (same : F c = c) : cs.modify i F = cs := by
  refine List.ext_getElem? fun j => ?_
  rw [List.getElem?_modify]
  by_cases here : i = j
  · subst here
    simp [held, same]
  · simp [here]

theorem alterSame {F : Comment → Comment} {c n : Comment} {place : List Nat}
    (here : c.part? place = some n) (same : F n = n) : c.alter F place = c := by
  induction place generalizing c with
  | nil => cases here; exact same
  | cons i place ih =>
    obtain ⟨d, held, inside⟩ := Option.bind_eq_some_iff.mp here
    cases c with
    | paragraph p =>
      have kept : p.content.modify i (alter F place) = p.content := modifySame held (ih inside)
      simp only [alter, kept]
    | command form base =>
      obtain ⟨h, args, _ | p⟩ := base
      · cases held
      cases i with
      | succ i => rfl
      | zero =>
        cases held
        simp only [alter, ih inside]
    | _ => cases held

section

variable {F : Comment → Comment} (keeps : ∀ p, ∃ q, F (.paragraph p) = .paragraph q)
include keeps

theorem alterInner (c : Comment) (i : Nat) (place : List Nat) :
    (c.alter F (i :: place)).inner = c.inner.modify i (alter F place) ∧
      (c.alter F (i :: place)).cachedBlank? = c.cachedBlank? := by
  cases c with
  | paragraph p => exact ⟨rfl, rfl⟩
  | command form base =>
    obtain ⟨h, args, _ | p⟩ := base
    · cases i <;> exact ⟨rfl, rfl⟩
    cases i with
    | succ i => exact ⟨by simp [alter, inner], rfl⟩
    | zero =>
      have still : ∃ q, alter F place (.paragraph p) = .paragraph q := by
        cases place with
        | nil => exact keeps p
        | cons => exact ⟨_, rfl⟩
      obtain ⟨q, same⟩ := still
      simp only [alter, same]
      exact ⟨congrArg (fun d => [d]) same.symm, rfl⟩
  | _ => cases i <;> exact ⟨rfl, rfl⟩

theorem alterBelow {c n : Comment} {place : List Nat} (here : c.part? place = some n)
    (rest : List Nat) : (c.alter F place).part? (place ++ rest) = (F n).part? rest := by
  induction place generalizing c with
  | nil => cases here; rfl
  | cons i place ih =>
    obtain ⟨d, held, inside⟩ := Option.bind_eq_some_iff.mp here
    simp only [List.cons_append, part?, (alterInner keeps c i place).1, List.getElem?_modify_eq,
      held]
    exact ih inside

theorem alterBeside {place q : List Nat} (beside : ¬ place <+: q) (c : Comment) :
    ((c.alter F place).part? q).bind cachedBlank? = (c.part? q).bind cachedBlank? := by
  induction place generalizing c q with
  | nil => exact absurd List.nil_prefix beside
  | cons i place ih =>
    obtain ⟨inside, own⟩ := alterInner keeps c i place
    cases q with
    | nil => exact own
    | cons j q =>
      simp only [part?, inside, List.getElem?_modify]
      by_cases here : i = j
      · subst here
        have other : ¬ place <+: q := fun before => beside (List.cons_prefix_cons.mpr ⟨rfl, before⟩)
        cases c.inner[i]? with
        | none => simp
        | some d => simpa using ih other d
      · simp [here]

end

/-- A read of a paragraph that has to look looks at the paragraph, and at those of its texts that
have nothing but blank texts before them. -/
inductive LooksAt (place : List Nat) (content : List Comment) : List Nat → Prop where
  | own : LooksAt place content place
  | text {j n} (held : content[j]? = some (.text n))
      (blank : (content.take j).all isBlankText = true) : LooksAt place content (place ++ [j])

theorem looksBelow {place rest : List Nat} {content : List Comment} :
    LooksAt place content (place ++ rest) ↔ LooksAt [] content rest := by
  constructor
  · intro looks
    generalize same : place ++ rest = q at looks
    cases looks with
    | own => rw [List.append_cancel_left (same.trans (List.append_nil _).symm)]; exact .own
    | text held blank => rw [List.append_cancel_left same]; exact .text held blank
  · intro looks
    cases looks with
    | own => rw [List.append_nil]; exact .own
    | text held blank => exact .text held blank

theorem looksInside {place q : List Nat} {content : List Comment}
    (looks : LooksAt place content q) : place <+: q := by
  cases looks with
  | own => exact List.prefix_refl _
  | text => exact List.prefix_append _ _

structure Fills (looks : List Nat → Prop) (before after : List Nat → Option Comment) : Prop where
  filled (q : List Nat) (looked : looks q) :
    ∃ n, before q = some n ∧ (after q).bind cachedBlank? = some n.freshBlank
  kept (q : List Nat) (other : ¬ looks q) :
    (after q).bind cachedBlank? = (before q).bind cachedBlank?

theorem scannedFills (all : Everywhere Cached (.paragraph p)) :
    Fills (LooksAt [] p.content) (part? · (.paragraph p))
      (part? · (.paragraph ⟨p.filled.header, scanned p.content⟩)) where
  filled q looked := by
    cases looked with
    | own => exact ⟨_, rfl, Word.filledCached paragraphCacheSound (everywhereOwn all)⟩
    | @text j n held blank =>
      have own := everywhereOwn (everywhereContent all _ (List.mem_of_getElem? held))
      have after : (scanned p.content)[j]? = some (.text n.filled) := by
        rw [scannedAt, if_pos blank, held]
        rfl
      refine ⟨.text n, ?_, ?_⟩
      · exact Option.bind_eq_some_iff.mpr ⟨_, held, rfl⟩
      · simp only [List.nil_append, part?, inner, after]
        exact Word.filledCached textCacheSound own
  kept q other := by
    cases q with
    | nil => exact absurd .own other
    | cons j q =>
      simp only [part?, inner, scannedAt]
      split
      · rename_i blank
        cases held : p.content[j]? with
        | none => rfl
        | some d =>
          cases d with
          | text n =>
            cases q with
            | nil => exact absurd (.text held blank) other
            | cons k q => rfl
          | _ => rfl
      · rfl

theorem alterFills {F : Comment → Comment} (keeps : ∀ p, ∃ q, F (.paragraph p) = .paragraph q)
    {c : Comment} {place : List Nat} (here : c.part? place = some (.paragraph p)) {content}
    (fills : Fills (LooksAt [] content) (part? · (.paragraph p)) (part? · (F (.paragraph p)))) :
    Fills (LooksAt place content) (part? · c) (part? · (c.alter F place)) where
  filled q looked := by
    obtain ⟨rest, rfl⟩ := looksInside looked
    obtain ⟨n, found, cached⟩ := fills.filled rest (looksBelow.mp looked)
    refine ⟨n, (partBelow here rest).trans found, ?_⟩
    rw [alterBelow keeps here]
    exact cached
  kept q other := by
    by_cases inside : place <+: q
    · obtain ⟨rest, rfl⟩ := inside
      rw [alterBelow keeps here, partBelow here]
      exact fills.kept rest fun looked => other (looksBelow.mpr looked)
    · exact alterBeside keeps inside c

variable {m : Mode} {t : CommandTable}

theorem blankStep {blank} {q : Paragraph Comment} (read : p.readBlank = .ok (blank, q)) :
    (step m t (.paragraph p) (.step .isBlank)).2 = .paragraph q := by
  have acted : (Action.step .isBlank).act m t (.paragraph p) =
      .ok (.truth blank, .paragraph q) := bindOk.mpr ⟨_, read, rfl⟩
  simp only [step, acted]

theorem blankKeeps (p : Paragraph Comment) :
    ∃ q, (step m t (.paragraph p) (.step .isBlank)).2 = .paragraph q := by
  cases read : p.readBlank with
  | ok result => exact ⟨result.2, blankStep read⟩
  | error fault =>
    have acted : (Action.step .isBlank).act m t (.paragraph p) = .error fault := by
      simp only [Action.act, perform, performBlank, read]
      rfl
    exact ⟨p, by simp only [step, acted]⟩

theorem insideKept {c : Comment} {place : List Nat} (here : c.part? place = some (.paragraph p))
    (all : Everywhere Cached (.paragraph p)) (set : p.cachedBlank? ≠ none) :
    c.readInside m t .blank place = c :=
  alterSame here (blankStep (paragraphKept all set))

theorem insideFills {c : Comment} {place : List Nat} (here : c.part? place = some (.paragraph p))
    (all : Everywhere Cached (.paragraph p)) (unset : p.cachedBlank? = none) :
    Fills (LooksAt place p.content) (part? · c) (part? · (c.readInside m t .blank place)) := by
  have read : (step m t (.paragraph p) (.step .isBlank)).2 = _ := blankStep (paragraphFills all unset)
  refine alterFills blankKeeps here ?_
  show Fills _ _ (part? · (step m t (.paragraph p) (.step .isBlank)).2)
  rw [read]
  exact scannedFills all

end DocTree.Comment
