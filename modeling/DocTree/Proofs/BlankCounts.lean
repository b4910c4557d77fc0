import DocTree.Proofs.BlankFills
import Mathlib.Data.List.Nodup

/-! Computations of blank flags. Beside each operation that reads stands the list of the places
at which its reads compute: a read of a cache logs its own place as often as it runs its
computation. Along the life of a node its place is logged at most once. -/
namespace DocTree
open Layout (textCache paragraphCache)

abbrev Log := List (List Nat)

def Log.below (place : List Nat) (log : Log) : Log := log.map (place ++ ·)

def Word.logged {σ : Type} (c : Cache) (compute : σ → Run (Bool × σ)) (inside : σ → Run Log) (s : σ)
    (w : Word) : Run Log := do
  let (_, (_, log), _) ← w.readCache c (fun (s, log) => do
    let before ← inside s
    let (value, s) ← compute s
    return (value, s, log ++ before ++ [[]])) (s, [])
  return log

def Text.computes (n : Text) : Run Log :=
  n.header.word.logged textCache (fun s => .ok (isBlank n.text, s)) (fun _ => .ok []) ()

def contentComputes (i : Nat) : List Comment → Run Log
  | .text n :: rest => do
    let own ← n.computes
    let (blank, _) ← n.readBlank
    let later ← if blank then contentComputes (i + 1) rest else .ok []
    return own.below [i] ++ later
  | _ => .ok []

def Paragraph.computes (p : Paragraph Comment) : Run Log :=
  p.header.word.logged paragraphCache readBlankContent (contentComputes 0) p.content

namespace Comment

mutual

def settleComputes : Comment → Run Log
  | .paragraph ⟨h, content⟩ => do
    let inside ← settleAllComputes 0 content
    let content ← settleAll content
    return inside ++ (← Paragraph.computes ⟨h, content⟩)
  | .command form ⟨_, _, some ⟨h, content⟩⟩ =>
    if form.showsParagraph then do
      let inside ← settleAllComputes 0 content
      let content ← settleAll content
      return (inside ++ (← Paragraph.computes ⟨h, content⟩)).below [0]
    else .ok []
  | _ => .ok []
termination_by structural c => c

def settleAllComputes (i : Nat) : List Comment → Run Log
  | [] => .ok []
  | c :: rest => do
    let own ← settleComputes c
    return own.below [i] ++ (← settleAllComputes (i + 1) rest)
termination_by structural cs => cs

end

def stepComputes : Step → Comment → Run Log
  | .isBlank, .text n => n.computes
  | .isBlank, .paragraph p => p.computes
  | .hasNonBlankParagraph, .command _ ⟨_, _, some p⟩ => do return (← p.computes).below [0]
  | .outline, c | .json, c => c.settleComputes
  | _, _ => .ok []

end Comment

namespace ParagraphExpectation

def computes (p : Paragraph Comment) : ParagraphExpectation → Run Log
  | .blank _ => p.computes
  | _ => .ok []

def computesAll (p : Paragraph Comment) : List ParagraphExpectation → Run Log
  | [] => .ok []
  | e :: rest => do
    let own ← e.computes p
    match ← e.check p with
    | (none, p) => return own ++ (← computesAll p rest)
    | _ => return own

end ParagraphExpectation

namespace NodeExpectation

mutual

def computes (place : List Nat) : NodeExpectation → Comment → Run Log
  | .child index inside, c =>
    match c.children[index]? with
    | none => .ok []
    | some found => do return (← computesAll (place ++ [index]) inside found).below [index]
  | .paragraph inside, .paragraph p => ParagraphExpectation.computesAll p inside
  | _, _ => .ok []
termination_by structural e => e

def computesAll (place : List Nat) : List NodeExpectation → Comment → Run Log
  | [], _ => .ok []
  | e :: rest, c => do
    let own ← computes place e c
    match ← check place e c with
    | (none, c) => return own ++ (← computesAll place rest c)
    | _ => return own
termination_by structural es => es

end

end NodeExpectation

namespace FullComment

def expectationComputes (f : FullComment) : TreeExpectation → Run Log
  | .block index inside =>
    match f.blocks[index]? with
    | none => .ok []
    | some found => do
      return (← NodeExpectation.computesAll [index] inside found).below [index]
  | _ => .ok []

def checkComputes (f : FullComment) : List TreeExpectation → Run Log
  | [] => .ok []
  | e :: rest => do
    let own ← f.expectationComputes e
    match ← e.check f with
    | (none, f) => return own ++ (← checkComputes f rest)
    | _ => return own

def stepComputes (f : FullComment) : Step → Run Log
  | .outline | .json => Comment.settleAllComputes 0 f.blocks
  | .expect expectations => f.checkComputes expectations
  | _ => .ok []

end FullComment

def Root.computes (u : Use) (r : Root) : Run Log :=
  match u, r with
  | .act step, .node c => do return (← c.stepComputes step).below [0]
  | .visit step, .tree f => f.stepComputes step
  | .inside i place read, r =>
    match r.part? (i :: place) with
    | none => .ok []
    | some n => do return (← n.stepComputes read.step).below (i :: place)
  | _, _ => .ok []

namespace Comment

structure Marks (before after : List Nat → Option Comment) (log : Log) : Prop where
  distinct : log.Nodup
  unset : ∀ place ∈ log, (before place).bind cachedBlank? = none
  set : ∀ place ∈ log, (after place).bind cachedBlank? ≠ none

structure Logged (c d : Comment) (log : Log) : Prop extends
    Marks (part? · c) (part? · d) log where
  reread : Reread c d

theorem marksNone (before after : List Nat → Option Comment) : Marks before after [] where
  distinct := .nil
  unset := nofun
  set := nofun

theorem loggedNone {c d} (h : Reread c d) : Logged c d [] := ⟨marksNone _ _, h⟩

theorem setStays {c d} (h : Reread c d) {place : List Nat}
    (set : (c.part? place).bind cachedBlank? ≠ none) :
    (d.part? place).bind cachedBlank? ≠ none := by
  cases here : c.part? place with
  | none => simp [here] at set
  | some n =>
    rw [here, Option.bind_some] at set
    obtain ⟨k, there, ages⟩ := rereadKeeps h place n here
    rwa [there, Option.bind_some, ages.kept set]

theorem loggedTrans {b c d log later} (first : Logged b c log) (second : Logged c d later) :
    Logged b d (log ++ later) where
  distinct := by
    refine List.nodup_append.mpr ⟨first.distinct, second.distinct, ?_⟩
    rintro place early _ late rfl
    exact first.set place early (second.unset place late)
  unset place member := by
    rcases List.mem_append.mp member with early | late
    · exact first.unset place early
    · by_contra set
      exact setStays first.reread set (second.unset place late)
  set place member := by
    rcases List.mem_append.mp member with early | late
    · exact setStays second.reread (first.set place early)
    · exact second.set place late
  reread := .trans first.reread second.reread

theorem marksBelow {before after inner outer : List Nat → Option Comment} {log : Log}
    {place : List Nat} (marks : Marks inner outer log)
    (early : ∀ rest, before (place ++ rest) = inner rest)
    (late : ∀ rest, after (place ++ rest) = outer rest) : Marks before after (log.below place) where
  distinct := List.Nodup.map (fun _ _ => List.append_cancel_left) marks.distinct
  unset q member := by
    obtain ⟨rest, inside, rfl⟩ := List.mem_map.mp member
    rw [early]
    exact marks.unset rest inside
  set q member := by
    obtain ⟨rest, inside, rfl⟩ := List.mem_map.mp member
    rw [late]
    exact marks.set rest inside

theorem loggedContent {c d log} (inside : Logged c d log) (h : Header)
    (before after : List Comment) :
    Logged (.paragraph ⟨h, before ++ c :: after⟩) (.paragraph ⟨h, before ++ d :: after⟩)
      (log.below [before.length]) := by
  have held (e : Comment) (rest : List Nat) :
      part? ([before.length] ++ rest) (.paragraph ⟨h, before ++ e :: after⟩) = e.part? rest := by
    simp [part?, inner]
  exact ⟨marksBelow inside.toMarks (held c) (held d), .content inside.reread⟩

theorem loggedCommand {form h args p q log}
    (inside : Logged (.paragraph p) (.paragraph q) log) :
    Logged (.command form ⟨h, args, some p⟩) (.command form ⟨h, args, some q⟩) (log.below [0]) :=
  ⟨marksBelow inside.toMarks (fun _ => rfl) (fun _ => rfl), .command inside.reread⟩

theorem textLogged {n : Text} (own : Cached (.text n)) :
    ∃ log, n.computes = .ok log ∧ Logged (.text n) (.text n.filled) log := by
  by_cases unset : n.cachedBlank? = none
  · have filled : n.filled.cachedBlank? = some _ := Word.filledCached textCacheSound own
    refine ⟨[[]], ?_, ⟨List.nodup_singleton _, ?_, ?_⟩, .text n⟩
    · exact bindOk.mpr ⟨_, Word.readUnset textCacheSound own unset rfl, rfl⟩
    · exact List.forall_mem_singleton.mpr unset
    · exact List.forall_mem_singleton.mpr (by simp [part?, cachedBlank?, filled])
  · exact ⟨[], bindOk.mpr ⟨_, Word.readSet own unset _, rfl⟩, loggedNone (.text n)⟩

theorem contentLogged {content : List Comment} (all : ∀ c ∈ content, Everywhere Cached c)
    (h : Header) (before : List Comment) :
    ∃ log, contentComputes before.length content = .ok log ∧
      Logged (.paragraph ⟨h, before ++ content⟩) (.paragraph ⟨h, before ++ scanned content⟩)
        log := by
  induction content generalizing before with
  | nil => exact ⟨[], rfl, loggedNone (.same _)⟩
  | cons c rest ih =>
    cases c with
    | text n =>
      rw [List.forall_mem_cons] at all
      have own := everywhereOwn all.1
      obtain ⟨log, computed, logged⟩ := textLogged own
      have first := loggedContent logged h before rest
      cases blank : isBlank n.text with
      | true =>
        obtain ⟨later, others, last⟩ := ih all.2 (before ++ [.text n.filled])
        rw [List.length_append] at others
        rw [List.append_assoc, List.append_assoc] at last
        refine ⟨_, ?_, loggedTrans first (by simpa [scanned, blank] using last)⟩
        refine bindOk.mpr ⟨log, computed, bindOk.mpr ⟨_, Text.readHolds own, ?_⟩⟩
        simp only [blank, if_true]
        exact bindOk.mpr ⟨later, others, rfl⟩
      | false =>
        refine ⟨log.below [before.length] ++ [], ?_, ?_⟩
        · refine bindOk.mpr ⟨log, computed, bindOk.mpr ⟨_, Text.readHolds own, ?_⟩⟩
          simp only [blank]
          rfl
        · simpa [scanned, blank] using first
    | _ => exact ⟨[], rfl, loggedNone (.same _)⟩

theorem paragraphLogged {p : Paragraph Comment} (all : Everywhere Cached (.paragraph p)) :
    ∃ log q, p.computes = .ok log ∧ p.readBlank = .ok (freshBlank (.paragraph p), q) ∧
      Logged (.paragraph p) (.paragraph q) log := by
  by_cases unset : p.cachedBlank? = none
  · obtain ⟨h, content⟩ := p
    have own := everywhereOwn all
    obtain ⟨log, computed, logged⟩ := contentLogged (everywhereContent all) h []
    rw [List.nil_append, List.nil_append] at logged
    have scan := contentHolds (everywhereContent all)
    have last : Logged (.paragraph ⟨h, scanned content⟩)
        (.paragraph ⟨(Paragraph.filled ⟨h, content⟩).header, scanned content⟩) [[]] := by
      have filled : (Paragraph.filled ⟨h, content⟩).cachedBlank? = some _ :=
        Word.filledCached paragraphCacheSound own
      refine ⟨⟨List.nodup_singleton _, ?_, ?_⟩, ?_⟩
      · exact List.forall_mem_singleton.mpr unset
      · refine List.forall_mem_singleton.mpr ?_
        show (Paragraph.filled ⟨h, content⟩).cachedBlank? ≠ none
        simp [filled]
      · have reread := Reread.paragraph ⟨h, scanned content⟩
        simpa only [Paragraph.filled, rereadFresh logged.reread] using reread
    refine ⟨log ++ [[]], _, ?_, paragraphFills all unset, loggedTrans logged last⟩
    refine bindOk.mpr ⟨(_, (scanned content, log ++ [[]]), _),
      Word.readUnset paragraphCacheSound own unset ?_, rfl⟩
    exact bindOk.mpr ⟨log, computed, bindOk.mpr ⟨_, scan, rfl⟩⟩
  · refine ⟨[], p, ?_, paragraphKept all unset, loggedNone (.same _)⟩
    exact bindOk.mpr ⟨_, Word.readSet (everywhereOwn all) unset _, rfl⟩

theorem loggedLine {line d log} (logged : Logged (.verbatimBlockLine line) d log) : log = [] := by
  refine List.eq_nil_iff_forall_not_mem.mpr fun place member => logged.set place member ?_
  have related := rereadPart logged.reread place
  cases place with
  | nil =>
    have cache : d.cache? = none := (rereadAges logged.reread).cache
    cases d with
    | text | paragraph => cases cache
    | _ => rfl
  | cons i place =>
    generalize d.part? (i :: place) = found at related ⊢
    cases related
    rfl

theorem loggedChild {c found d : Comment} {i : Nat} {log} (held : c.children[i]? = some found)
    (logged : Logged found d log) : Logged c (c.replaceChild i d) (log.below [i]) := by
  cases c with
  | paragraph p =>
    obtain ⟨h, content⟩ := p
    change content[i]? = some found at held
    obtain ⟨bound, rfl⟩ := List.getElem?_eq_some_iff.mp held
    have place : (content.take i).length = i := List.length_take_of_le bound.le
    have whole : content.take i ++ content[i] :: content.drop (i + 1) = content := by
      rw [List.getElem_cons_drop, List.take_append_drop]
    have changed : content.set i d = content.take i ++ d :: content.drop (i + 1) := by
      rw [List.set_eq_take_append_cons_drop, if_pos bound]
    have inside := loggedContent logged h (content.take i) (content.drop (i + 1))
    rwa [whole, ← changed, place] at inside
  | command form base =>
    obtain ⟨h, args, paragraph⟩ := base
    simp only [children] at held
    cases shown : form.showsParagraph with
    | false =>
      rw [shown, if_neg Bool.false_ne_true] at held
      obtain ⟨line, _, rfl⟩ := List.mem_map.mp (List.mem_of_getElem? held)
      rw [loggedLine logged]
      refine loggedNone ?_
      simpa only [replaceChild, shown] using Reread.same _
    | true =>
      rw [shown, if_pos rfl] at held
      obtain ⟨bound, here⟩ := List.getElem?_eq_some_iff.mp held
      obtain ⟨p, rfl, rfl⟩ := Option.map_eq_some_iff.mp
        (Option.mem_toList.mp (List.mem_of_getElem? held))
      obtain ⟨q, rfl⟩ := rereadParagraph logged.reread
      obtain rfl : i = 0 := Nat.lt_one_iff.mp bound
      simpa only [replaceChild, shown] using loggedCommand logged
  | _ => cases held

end Comment

open Comment (Everywhere Cached Reread Logged cachedStable rereadEverywhere loggedNone loggedTrans)

theorem ParagraphExpectation.checkAllLogged {p : Paragraph Comment}
    (expectations : List ParagraphExpectation) (all : Everywhere Cached (.paragraph p)) :
    ∃ log cause q, computesAll p expectations = .ok log ∧
      checkAll p expectations = .ok (cause, q) ∧ Logged (.paragraph p) (.paragraph q) log := by
  have one (e : ParagraphExpectation) {p} (all : Everywhere Cached (.paragraph p)) :
      ∃ log cause q, e.computes p = .ok log ∧ e.check p = .ok (cause, q) ∧
        Logged (.paragraph p) (.paragraph q) log := by
    cases e with
    | blank expected =>
      obtain ⟨log, q, computed, read, logged⟩ := Comment.paragraphLogged all
      exact ⟨log, _, q, computed, bindOk.mpr ⟨_, read, rfl⟩, logged⟩
    | _ => exact ⟨[], _, p, rfl, rfl, loggedNone (.same _)⟩
  induction expectations generalizing p with
  | nil => exact ⟨[], none, p, rfl, rfl, loggedNone (.same _)⟩
  | cons e rest ih =>
    obtain ⟨log, cause, q, computed, checked, logged⟩ := one e all
    cases cause with
    | some cause =>
      refine ⟨log, some cause, q, ?_, bindOk.mpr ⟨_, checked, rfl⟩, logged⟩
      exact bindOk.mpr ⟨log, computed, bindOk.mpr ⟨_, checked, rfl⟩⟩
    | none =>
      obtain ⟨later, cause, r, others, done, last⟩ :=
        ih (rereadEverywhere cachedStable logged.reread all)
      refine ⟨log ++ later, cause, r, ?_, bindOk.mpr ⟨_, checked, done⟩, loggedTrans logged last⟩
      exact bindOk.mpr ⟨log, computed, bindOk.mpr ⟨_, checked, bindOk.mpr ⟨later, others, rfl⟩⟩⟩

namespace NodeExpectation

mutual

theorem checkLogged (place : List Nat) {c : Comment} (e : NodeExpectation)
    (all : Everywhere Cached c) : ∃ log mismatch d, computes place e c = .ok log ∧
      check place e c = .ok (mismatch, d) ∧ Logged c d log := by
  cases e with
  | child index inside =>
    unfold computes check
    cases held : c.children[index]? with
    | none => exact ⟨[], _, c, rfl, rfl, loggedNone (.same _)⟩
    | some found =>
      have below := Comment.everywhereChild all (fun _ => trivial) found (List.mem_of_getElem? held)
      obtain ⟨log, mismatch, d, computed, checked, logged⟩ :=
        checkAllLogged (place ++ [index]) inside below
      exact ⟨_, _, _, bindOk.mpr ⟨log, computed, rfl⟩, bindOk.mpr ⟨_, checked, rfl⟩,
        Comment.loggedChild held logged⟩
  | paragraph inside =>
    cases c with
    | paragraph p =>
      obtain ⟨log, cause, q, computed, checked, logged⟩ :=
        ParagraphExpectation.checkAllLogged inside all
      exact ⟨log, _, .paragraph q, computed,
        bindOk.mpr ⟨_, bindOk.mpr ⟨_, checked, rfl⟩, rfl⟩, logged⟩
    | _ => exact ⟨[], _, _, rfl, rfl, loggedNone (.same _)⟩
  | _ => exact ⟨[], _, c, rfl, rfl, loggedNone (.same _)⟩
termination_by structural e

theorem checkAllLogged (place : List Nat) {c : Comment} (es : List NodeExpectation)
    (all : Everywhere Cached c) : ∃ log mismatch d, computesAll place es c = .ok log ∧
      checkAll place es c = .ok (mismatch, d) ∧ Logged c d log := by
  cases es with
  | nil => exact ⟨[], none, c, rfl, rfl, loggedNone (.same _)⟩
  | cons e rest =>
    unfold computesAll checkAll
    obtain ⟨log, mismatch, d, computed, checked, logged⟩ := checkLogged place e all
    cases mismatch with
    | some mismatch =>
      refine ⟨log, some mismatch, d, ?_, bindOk.mpr ⟨_, checked, rfl⟩, logged⟩
      exact bindOk.mpr ⟨log, computed, bindOk.mpr ⟨_, checked, rfl⟩⟩
    | none =>
      obtain ⟨later, mismatch, d', others, done, last⟩ :=
        checkAllLogged place rest (rereadEverywhere cachedStable logged.reread all)
      refine ⟨log ++ later, mismatch, d', ?_, bindOk.mpr ⟨_, checked, done⟩,
        loggedTrans logged last⟩
      exact bindOk.mpr ⟨log, computed, bindOk.mpr ⟨_, checked, bindOk.mpr ⟨later, others, rfl⟩⟩⟩
termination_by structural es

end

end NodeExpectation

namespace FullComment

variable {f : FullComment} (all : ∀ c ∈ f.blocks, Everywhere Cached c) (h : Header)
include all

theorem expectationLogged (e : TreeExpectation) :
    ∃ log mismatch g, f.expectationComputes e = .ok log ∧ e.check f = .ok (mismatch, g) ∧
      Logged (.paragraph ⟨h, f.blocks⟩) (.paragraph ⟨h, g.blocks⟩) log := by
  cases e with
  | block index inside =>
    simp only [expectationComputes, TreeExpectation.check]
    cases held : f.blocks[index]? with
    | none => exact ⟨[], _, f, rfl, rfl, loggedNone (.same _)⟩
    | some found =>
      have listed := all found (List.mem_of_getElem? held)
      obtain ⟨log, mismatch, d, computed, checked, logged⟩ :=
        NodeExpectation.checkAllLogged [index] inside listed
      exact ⟨_, _, _, bindOk.mpr ⟨log, computed, rfl⟩, bindOk.mpr ⟨_, checked, rfl⟩,
        Comment.loggedChild (c := .paragraph ⟨h, f.blocks⟩) held logged⟩
  | _ => exact ⟨[], _, f, rfl, rfl, loggedNone (.same _)⟩

theorem checkLogged (expectations : List TreeExpectation) :
    ∃ log mismatch g, f.checkComputes expectations = .ok log ∧
      f.check expectations = .ok (mismatch, g) ∧
      Logged (.paragraph ⟨h, f.blocks⟩) (.paragraph ⟨h, g.blocks⟩) log := by
  induction expectations generalizing f with
  | nil => exact ⟨[], none, f, rfl, rfl, loggedNone (.same _)⟩
  | cons e rest ih =>
    obtain ⟨log, mismatch, g, computed, checked, logged⟩ := expectationLogged all h e
    cases mismatch with
    | some mismatch =>
      refine ⟨log, some mismatch, g, ?_, bindOk.mpr ⟨_, checked, rfl⟩, logged⟩
      exact bindOk.mpr ⟨log, computed, bindOk.mpr ⟨_, checked, rfl⟩⟩
    | none =>
      have read := expectationRead e checked all
      obtain ⟨later, mismatch, g', others, done, last⟩ :=
        ih (Comment.rereadsEverywhere cachedStable read.blocks all)
      refine ⟨log ++ later, mismatch, g', ?_, bindOk.mpr ⟨_, checked, done⟩,
        loggedTrans logged last⟩
      exact bindOk.mpr ⟨log, computed, bindOk.mpr ⟨_, checked, bindOk.mpr ⟨later, others, rfl⟩⟩⟩

end FullComment

namespace Comment

variable {m : Mode} {t : CommandTable}

theorem performed {c d : Comment} {s : Step} {answer} (done : c.perform t s = .ok (answer, d)) :
    (c.step m t (.step s)).2 = d := by
  have acted : (Action.step s).act m t c = .ok (answer, d) := done
  simp only [step, acted]

end Comment

namespace Root
open Comment

end Root

open Comment

end DocTree
