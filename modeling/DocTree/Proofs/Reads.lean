import DocTree.Proofs.Cache
import DocTree.Tree.Session
import Mathlib.Data.List.Forall2

/-! Reads of trees. A read may fill in the caches of texts and paragraphs and changes
nothing else; `Reread` says which trees that can lead to. While every cache of a tree
holds, no read waits, and each answers what a computation on the content comes to. -/
namespace DocTree
open Layout (textCache paragraphCache)

namespace Comment

/-- A property of a node and of the nodes in the paragraphs it holds, shown or not. The lines
of a verbatim block are left to the step that sets them. -/
inductive Everywhere (P : Comment → Prop) : Comment → Prop where
  | text {node} (own : P (.text node)) : Everywhere P (.text node)
  | inlineCommand {node} (own : P (.inlineCommand node)) : Everywhere P (.inlineCommand node)
  | startTag {node} (own : P (.startTag node)) : Everywhere P (.startTag node)
  | endTag {node} (own : P (.endTag node)) : Everywhere P (.endTag node)
  | paragraph {node : Paragraph Comment} (own : P (.paragraph node))
      (content : ∀ c ∈ node.content, Everywhere P c) : Everywhere P (.paragraph node)
  | command {form} {base : BlockCommand Comment} (own : P (.command form base))
      (paragraph : ∀ p, base.paragraph = some p → Everywhere P (.paragraph p)) :
      Everywhere P (.command form base)
  | verbatimBlockLine {node} (own : P (.verbatimBlockLine node)) :
      Everywhere P (.verbatimBlockLine node)

theorem everywhereOwn {P c} (h : Everywhere P c) : P c := by
  cases h <;> assumption

theorem everywhereContent {P} {p : Paragraph Comment} (h : Everywhere P (.paragraph p)) :
    ∀ c ∈ p.content, Everywhere P c := by
  cases h
  assumption

theorem everywhereParagraph {P form} {base : BlockCommand Comment}
    (h : Everywhere P (.command form base)) {p} (held : base.paragraph = some p) :
    Everywhere P (.paragraph p) := by
  cases h with
  | command own paragraph => exact paragraph p held

theorem everywhereChild {P c} (h : Everywhere P c) (lines : ∀ line, P (.verbatimBlockLine line)) :
    ∀ d ∈ c.children, Everywhere P d := by
  cases h with
  | paragraph own content => exact content
  | @command form base own paragraph =>
    intro d member
    simp only [children] at member
    split at member
    · obtain ⟨p, held, rfl⟩ := Option.map_eq_some_iff.mp (Option.mem_toList.mp member)
      exact paragraph p held
    · obtain ⟨line, listed, rfl⟩ := List.mem_map.mp member
      exact .verbatimBlockLine (lines line)
  | _ => simp [children]

def isBlankText : Comment → Bool
  | .text node => isBlank node.text
  | _ => false

def freshBlank : Comment → Bool
  | .text node => isBlank node.text
  | .paragraph node => node.content.all isBlankText
  | _ => false

def Cached : Comment → Prop
  | .text node => node.header.word.Holds textCache (freshBlank (.text node))
  | .paragraph node => node.header.word.Holds paragraphCache (freshBlank (.paragraph node))
  | _ => True

end Comment

def Text.filled (n : Text) : Text :=
  { n with header := { n.header with word := n.header.word.filled textCache (isBlank n.text) } }

def Paragraph.filled (p : Paragraph Comment) : Paragraph Comment :=
  { p with header := { p.header with
      word := p.header.word.filled paragraphCache (Comment.freshBlank (.paragraph p)) } }

namespace Comment

/-- A tree and the same tree with some of its caches filled in. -/
inductive Reread : Comment → Comment → Prop where
  | same (c) : Reread c c
  | trans {a b c} (first : Reread a b) (second : Reread b c) : Reread a c
  | text (n : Text) : Reread (.text n) (.text n.filled)
  | paragraph (p : Paragraph Comment) : Reread (.paragraph p) (.paragraph p.filled)
  | content {h before c d after} (inside : Reread c d) :
      Reread (.paragraph ⟨h, before ++ c :: after⟩) (.paragraph ⟨h, before ++ d :: after⟩)
  | command {form h args p q} (inside : Reread (.paragraph p) (.paragraph q)) :
      Reread (.command form ⟨h, args, some p⟩) (.command form ⟨h, args, some q⟩)

theorem rereadAll {cs ds} (h : List.Forall₂ Reread cs ds) (header : Header)
    (before : List Comment) :
    Reread (.paragraph ⟨header, before ++ cs⟩) (.paragraph ⟨header, before ++ ds⟩) := by
  induction h generalizing before with
  | nil => exact .same _
  | @cons c d cs ds head tail ih =>
    have rest := ih (before ++ [d])
    rw [List.append_assoc, List.append_assoc] at rest
    exact .trans (.content head) rest

theorem rereadsSame (cs : List Comment) : List.Forall₂ Reread cs cs :=
  List.forall₂_same.mpr fun c _ => .same c

theorem relatedTrans {R : Comment → Comment → Prop} {bs cs ds : List Comment}
    (trans : ∀ {b c d}, R b c → R c d → R b d) (first : List.Forall₂ R bs cs)
    (second : List.Forall₂ R cs ds) : List.Forall₂ R bs ds := by
  induction first generalizing ds with
  | nil => exact second
  | cons head tail ih =>
    cases second with
    | cons next rest => exact .cons (trans head next) (ih rest)

theorem rereadsTrans {bs cs ds} (first : List.Forall₂ Reread bs cs)
    (second : List.Forall₂ Reread cs ds) : List.Forall₂ Reread bs ds :=
  relatedTrans .trans first second

theorem rereadsSet {cs : List Comment} {i : Nat} {c d} (held : cs[i]? = some c)
    (related : Reread c d) : List.Forall₂ Reread cs (cs.set i d) := by
  induction cs generalizing i with
  | nil => nomatch held
  | cons e rest ih =>
    cases i with
    | zero =>
      cases held
      exact .cons related (rereadsSame rest)
    | succ i => exact .cons (.same e) (ih held)

theorem rereadBlankText {c d} (h : Reread c d) : isBlankText d = isBlankText c := by
  induction h with
  | trans first second left right => exact right.trans left
  | _ => rfl

theorem rereadFresh {c d} (h : Reread c d) : freshBlank d = freshBlank c := by
  induction h with
  | trans first second left right => exact right.trans left
  | content inside => simp only [freshBlank, List.all_append, List.all_cons, rereadBlankText inside]
  | _ => rfl

structure Stable (P : Comment → Prop) : Prop where
  text : ∀ n, P (.text n) → P (.text n.filled)
  paragraph : ∀ p, P (.paragraph p) → P (.paragraph p.filled)
  content : ∀ h before c d after, Reread c d → P (.paragraph ⟨h, before ++ c :: after⟩) →
    P (.paragraph ⟨h, before ++ d :: after⟩)
  command : ∀ form h args p q, Reread (.paragraph p) (.paragraph q) →
    P (.command form ⟨h, args, some p⟩) → P (.command form ⟨h, args, some q⟩)

theorem stableKept {P} (kept : ∀ {c d}, Reread c d → P c → P d) : Stable P where
  text n := kept (.text n)
  paragraph p := kept (.paragraph p)
  content _ _ _ _ _ inside := kept (.content inside)
  command _ _ _ _ _ inside := kept (.command inside)

theorem stableAnd {P Q} (left : Stable P) (right : Stable Q) : Stable fun c => P c ∧ Q c where
  text n own := ⟨left.text n own.1, right.text n own.2⟩
  paragraph p own := ⟨left.paragraph p own.1, right.paragraph p own.2⟩
  content h before c d after related own :=
    ⟨left.content h before c d after related own.1, right.content h before c d after related own.2⟩
  command form h args p q related own :=
    ⟨left.command form h args p q related own.1, right.command form h args p q related own.2⟩

theorem rereadEverywhere {P c d} (stable : Stable P) (h : Reread c d) (all : Everywhere P c) :
    Everywhere P d := by
  induction h with
  | same c => exact all
  | trans first second left right => exact right (left all)
  | text n => exact .text (stable.text n (everywhereOwn all))
  | paragraph p =>
    exact .paragraph (stable.paragraph p (everywhereOwn all))
      (fun c member => everywhereContent all c member)
  | @content h before c d after inside ih =>
    have content := everywhereContent all
    refine .paragraph (stable.content h before c d after inside (everywhereOwn all)) ?_
    intro e member
    rcases List.mem_append.mp member with left | right
    · exact content e (List.mem_append_left _ left)
    rcases List.mem_cons.mp right with rfl | right
    · exact ih (content c (by simp))
    · exact content e (List.mem_append_right _ (List.mem_cons_of_mem _ right))
  | @command form h args p q inside ih =>
    cases all with
    | command own paragraph =>
      refine .command (stable.command form h args p q inside own) ?_
      rintro _ ⟨⟩
      exact ih (paragraph p rfl)

theorem relatedAll {R : Comment → Comment → Prop} {P : Comment → Prop} {cs ds : List Comment}
    (step : ∀ {c d}, R c d → P c → P d) (related : List.Forall₂ R cs ds) (all : ∀ c ∈ cs, P c) :
    ∀ d ∈ ds, P d := by
  induction related with
  | nil => exact all
  | cons head tail ih =>
    rw [List.forall_mem_cons] at all ⊢
    exact ⟨step head all.1, ih all.2⟩

theorem rereadsEverywhere {P cs ds} (stable : Stable P) (h : List.Forall₂ Reread cs ds)
    (all : ∀ c ∈ cs, Everywhere P c) : ∀ d ∈ ds, Everywhere P d :=
  relatedAll (rereadEverywhere stable) h all

theorem cachedStable : Stable Cached where
  text n h := Word.filledHolds textCacheSound h
  paragraph p h := Word.filledHolds paragraphCacheSound h
  content h before c d after inside own := by
    have same := rereadFresh (.content inside : Reread (.paragraph ⟨h, before ++ c :: after⟩) _)
    show h.word.Holds paragraphCache (freshBlank (.paragraph ⟨h, before ++ d :: after⟩))
    rw [same]
    exact own
  command _ _ _ _ _ _ _ := trivial

end Comment

theorem Text.readHolds {n : Text} (h : Comment.Cached (.text n)) :
    n.readBlank = .ok (isBlank n.text, n.filled) := by
  cases set : n.cachedBlank? with
  | none => exact bindOk.mpr ⟨_, Word.readUnset textCacheSound h set rfl, rfl⟩
  | some known =>
    have kept : n.cachedBlank? ≠ none := by simp [set]
    refine bindOk.mpr ⟨_, Word.readSet h kept (), ?_⟩
    rw [filled, Word.filledSet _ kept]
    rfl

namespace Comment

def scanned : List Comment → List Comment
  | .text n :: rest => .text n.filled :: if isBlank n.text then scanned rest else rest
  | content => content

theorem scannedReread (content : List Comment) : List.Forall₂ Reread content (scanned content) := by
  induction content with
  | nil => exact .nil
  | cons c rest ih =>
    cases c with
    | text n =>
      simp only [scanned]
      split
      · exact .cons (.text n) ih
      · exact .cons (.text n) (rereadsSame rest)
    | _ => exact rereadsSame _

theorem contentHolds {content : List Comment} (all : ∀ c ∈ content, Everywhere Cached c) :
    readBlankContent content = .ok (content.all isBlankText, scanned content) := by
  induction content with
  | nil => rfl
  | cons c rest ih =>
    cases c with
    | text n =>
      have read := Text.readHolds (everywhereOwn (all (.text n) (by simp)))
      have restRead := ih fun d member => all d (by simp [member])
      refine bindOk.mpr ⟨_, read, ?_⟩
      cases blank : isBlank n.text with
      | true =>
        simp only [if_true]
        refine bindOk.mpr ⟨_, restRead, ?_⟩
        simp [isBlankText, scanned, blank, pure, Except.pure]
      | false => simp [isBlankText, scanned, blank, pure, Except.pure]
    | _ => rfl

section

variable {p : Paragraph Comment}

theorem paragraphKept (all : Everywhere Cached (.paragraph p)) (set : p.cachedBlank? ≠ none) :
    p.readBlank = .ok (freshBlank (.paragraph p), p) :=
  bindOk.mpr ⟨_, Word.readSet (everywhereOwn all) set p.content, rfl⟩

theorem paragraphFills (all : Everywhere Cached (.paragraph p)) (unset : p.cachedBlank? = none) :
    p.readBlank = .ok (freshBlank (.paragraph p), ⟨p.filled.header, scanned p.content⟩) :=
  bindOk.mpr ⟨_, Word.readUnset paragraphCacheSound (everywhereOwn all) unset
    (contentHolds (everywhereContent all)), rfl⟩

theorem paragraphHolds (all : Everywhere Cached (.paragraph p)) :
    ∃ q, p.readBlank = .ok (freshBlank (.paragraph p), q) ∧
      Reread (.paragraph p) (.paragraph q) ∧ q.header = p.filled.header := by
  by_cases unset : p.cachedBlank? = none
  · obtain ⟨h, content⟩ := p
    have inside : Reread (.paragraph ⟨h, content⟩) (.paragraph ⟨h, scanned content⟩) :=
      rereadAll (scannedReread content) h []
    have last := Reread.paragraph ⟨h, scanned content⟩
    simp only [Paragraph.filled, rereadFresh inside] at last
    exact ⟨_, paragraphFills all unset, .trans inside last, rfl⟩
  · refine ⟨p, paragraphKept all unset, .same _, ?_⟩
    rw [Paragraph.filled, Word.filledSet _ unset]

end

def settledHeader : Comment → Header
  | .paragraph p => p.filled.header
  | c => c.header

theorem settleAllHolds {content : List Comment}
    (settled : ∀ c ∈ content, ∃ d, settle c = .ok d ∧ Reread c d ∧ d.header = settledHeader c) :
    ∃ after, settleAll content = .ok after ∧ List.Forall₂ Reread content after := by
  induction content with
  | nil => exact ⟨[], rfl, .nil⟩
  | cons c rest ih =>
    obtain ⟨d, first, related, _⟩ := settled c (by simp)
    obtain ⟨after, restSettled, restRelated⟩ := ih fun e member => settled e (by simp [member])
    exact ⟨d :: after, bindOk.mpr ⟨d, first, bindOk.mpr ⟨after, restSettled, rfl⟩⟩,
      .cons related restRelated⟩

theorem settleParagraphHolds {h : Header} {content after : List Comment}
    (all : Everywhere Cached (.paragraph ⟨h, content⟩))
    (related : List.Forall₂ Reread content after) :
    ∃ blank q, Paragraph.readBlank ⟨h, after⟩ = .ok (blank, q) ∧
      Reread (.paragraph ⟨h, content⟩) (.paragraph q) ∧
      q.header = (Paragraph.filled ⟨h, content⟩).header := by
  have inside : Reread (.paragraph ⟨h, content⟩) (.paragraph ⟨h, after⟩) := rereadAll related h []
  obtain ⟨q, read, last, header⟩ := paragraphHolds (rereadEverywhere cachedStable inside all)
  refine ⟨_, q, read, .trans inside last, ?_⟩
  simp only [header, Paragraph.filled, rereadFresh inside]

theorem settleHolds (c : Comment) (all : Everywhere Cached c) :
    ∃ d, settle c = .ok d ∧ Reread c d ∧ d.header = settledHeader c := by
  induction c using induct with
  | paragraph node ih =>
    obtain ⟨h, content⟩ := node
    obtain ⟨after, settled, related⟩ :=
      settleAllHolds fun c member => ih c member (everywhereContent all c member)
    obtain ⟨blank, q, read, reread, header⟩ := settleParagraphHolds all related
    refine ⟨.paragraph q, ?_, reread, header⟩
    exact bindOk.mpr ⟨after, settled, bindOk.mpr ⟨_, read, rfl⟩⟩
  | command form base ih =>
    obtain ⟨h, args, _ | ⟨ph, content⟩⟩ := base
    · exact ⟨_, rfl, .same _, rfl⟩
    cases shown : form.showsParagraph with
    | false => exact ⟨_, by simp only [settle, shown]; rfl, .same _, rfl⟩
    | true =>
      have inner := everywhereParagraph all rfl
      obtain ⟨after, settled, related⟩ :=
        settleAllHolds fun c member => ih _ rfl c member (everywhereContent inner c member)
      obtain ⟨blank, q, read, reread, header⟩ := settleParagraphHolds inner related
      refine ⟨.command form ⟨h, args, some q⟩, ?_, .command reread, rfl⟩
      simp only [settle, shown, if_true]
      exact bindOk.mpr ⟨after, settled, bindOk.mpr ⟨_, read, rfl⟩⟩
  | _ => exact ⟨_, rfl, .same _, rfl⟩

theorem mapTotal {α β : Type} {f : α → Run β} {xs : List α} (each : ∀ x ∈ xs, ∃ y, f x = .ok y) :
    ∃ ys, xs.mapM f = .ok ys := by
  induction xs with
  | nil => exact ⟨[], rfl⟩
  | cons x rest ih =>
    rw [List.forall_mem_cons] at each
    obtain ⟨y, first⟩ := each.1
    obtain ⟨ys, others⟩ := ih each.2
    refine ⟨y :: ys, ?_⟩
    rw [List.mapM_cons]
    exact bindOk.mpr ⟨y, first, bindOk.mpr ⟨ys, others, rfl⟩⟩

theorem snapshotHolds (t : CommandTable) (c : Comment) (all : Everywhere Cached c) :
    ∃ s, c.snapshot t = .ok s := by
  induction c using inductChildren with
  | step c ih =>
    have own : ∃ s, c.snapshotNode t = .ok s := by
      cases c with
      | paragraph p =>
        obtain ⟨q, read, _⟩ := paragraphHolds all
        exact ⟨_, bindOk.mpr ⟨_, read, rfl⟩⟩
      | _ => exact ⟨_, rfl⟩
    obtain ⟨s, node⟩ := own
    obtain ⟨ss, children⟩ := mapTotal fun d member =>
      ih d member (everywhereChild all (fun _ => trivial) d member)
    refine ⟨s.withChildren ss, ?_⟩
    rw [snapshot_eq]
    exact bindOk.mpr ⟨s, node, bindOk.mpr ⟨ss, children, rfl⟩⟩

theorem nonBlankHolds {form} {base : BlockCommand Comment}
    (all : Everywhere Cached (.command form base)) :
    ∃ answer after, base.readNonBlank = .ok (answer, after) ∧
      Reread (.command form base) (.command form after) ∧ after.header = base.header := by
  obtain ⟨h, args, _ | p⟩ := base
  · exact ⟨false, _, rfl, .same _, rfl⟩
  · obtain ⟨q, read, related, _⟩ := paragraphHolds (everywhereParagraph all rfl)
    exact ⟨_, _, bindOk.mpr ⟨_, read, rfl⟩, .command related, rfl⟩

theorem rereadParagraph {p d} (h : Reread (.paragraph p) d) : ∃ q, d = .paragraph q := by
  generalize same : Comment.paragraph p = c at h
  induction h generalizing p with
  | trans first second left right =>
    obtain ⟨q, rfl⟩ := left same
    exact right rfl
  | same => exact ⟨p, same.symm⟩
  | text => nomatch same
  | paragraph q => exact ⟨_, rfl⟩
  | content inside => exact ⟨_, rfl⟩
  | command inside => nomatch same

theorem rereadChild {c found d : Comment} {i : Nat} (held : c.children[i]? = some found)
    (related : Reread found d) : Reread c (c.replaceChild i d) := by
  cases c with
  | paragraph p =>
    obtain ⟨h, content⟩ := p
    change content[i]? = some found at held
    obtain ⟨bound, here⟩ := List.getElem?_eq_some_iff.mp held
    have whole : content = content.take i ++ found :: content.drop (i + 1) := by
      rw [← here, List.getElem_cons_drop, List.take_append_drop]
    have changed : content.set i d = content.take i ++ d :: content.drop (i + 1) := by
      rw [List.set_eq_take_append_cons_drop, if_pos bound]
    show Reread (.paragraph ⟨h, content⟩) (.paragraph ⟨h, content.set i d⟩)
    rw [changed]
    nth_rewrite 1 [whole]
    exact .content related
  | command form base =>
    obtain ⟨h, args, paragraph⟩ := base
    simp only [children] at held
    cases shown : form.showsParagraph with
    | false => simpa only [replaceChild, shown] using Reread.same _
    | true =>
      rw [shown, if_pos rfl] at held
      obtain ⟨p, rfl, rfl⟩ := Option.map_eq_some_iff.mp
        (Option.mem_toList.mp (List.mem_of_getElem? held))
      obtain ⟨q, rfl⟩ := rereadParagraph related
      simpa only [replaceChild, shown] using Reread.command related
  | _ => cases held

end Comment

open Comment (Everywhere Cached Reread cachedStable rereadEverywhere)

theorem ParagraphExpectation.checkAllReread {p q : Paragraph Comment} {cause}
    (expectations : List ParagraphExpectation) (h : checkAll p expectations = .ok (cause, q))
    (all : Everywhere Cached (.paragraph p)) : Reread (.paragraph p) (.paragraph q) := by
  have one (e : ParagraphExpectation) {p q cause} (h : e.check p = .ok (cause, q))
      (all : Everywhere Cached (.paragraph p)) : Reread (.paragraph p) (.paragraph q) := by
    cases e with
    | blank expected =>
      obtain ⟨after, read, related, _⟩ := Comment.paragraphHolds all
      obtain ⟨_, same, rest⟩ := bindOk.mp h
      cases read.symm.trans same
      cases rest
      exact related
    | _ => cases h; exact .same _
  induction expectations generalizing p with
  | nil => cases h; exact .same _
  | cons e rest ih =>
    obtain ⟨⟨found, next⟩, checked, h⟩ := bindOk.mp h
    have first := one e checked all
    cases found with
    | some cause => cases h; exact first
    | none => exact .trans first (ih h (rereadEverywhere cachedStable first all))

theorem Comment.checkParagraphReread {inside c d cause}
    (h : Comment.checkParagraph inside c = .ok (cause, d)) (all : Everywhere Cached c) :
    Reread c d := by
  cases c with
  | paragraph p =>
    obtain ⟨⟨found, q⟩, checked, same⟩ := bindOk.mp h
    cases same
    exact ParagraphExpectation.checkAllReread inside checked all
  | _ => cases h; exact .same _

namespace NodeExpectation

mutual

theorem checkReread {place mismatch} {c d : Comment} (e : NodeExpectation)
    (h : check place e c = .ok (mismatch, d)) (all : Everywhere Cached c) : Reread c d := by
  cases e with
  | child index inside =>
    unfold check at h
    cases held : c.children[index]? with
    | none => simp only [held] at h; cases h; exact .same _
    | some found =>
      simp only [held] at h
      obtain ⟨⟨_, next⟩, checked, same⟩ := bindOk.mp h
      cases same
      have below := Comment.everywhereChild all (fun _ => trivial) found (List.mem_of_getElem? held)
      exact Comment.rereadChild held (checkAllReread inside checked below)
  | paragraph inside =>
    unfold check at h
    obtain ⟨⟨_, next⟩, checked, same⟩ := bindOk.mp h
    cases same
    exact Comment.checkParagraphReread checked all
  | _ => unfold check at h; cases h; exact .same _
termination_by structural e

theorem checkAllReread {place mismatch} {c d : Comment} (es : List NodeExpectation)
    (h : checkAll place es c = .ok (mismatch, d)) (all : Everywhere Cached c) : Reread c d := by
  cases es with
  | nil => unfold checkAll at h; cases h; exact .same _
  | cons e rest =>
    unfold checkAll at h
    obtain ⟨⟨found, next⟩, checked, h⟩ := bindOk.mp h
    have first := checkReread e checked all
    cases found with
    | some cause => cases h; exact first
    | none => exact .trans first (checkAllReread rest h (rereadEverywhere cachedStable first all))
termination_by structural es

end

end NodeExpectation

namespace FullComment

structure Read (f g : FullComment) : Prop where
  header : g.header = f.header
  blocks : List.Forall₂ Reread f.blocks g.blocks

theorem readSame (f : FullComment) : Read f f := ⟨rfl, Comment.rereadsSame f.blocks⟩

theorem expectationRead {f g : FullComment} {mismatch} (e : TreeExpectation)
    (h : e.check f = .ok (mismatch, g)) (all : ∀ c ∈ f.blocks, Everywhere Cached c) :
    Read f g := by
  cases e with
  | block index inside =>
    unfold TreeExpectation.check at h
    cases held : f.blocks[index]? with
    | none =>
      simp only [held] at h
      cases h
      exact readSame _
    | some found =>
      simp only [held] at h
      obtain ⟨⟨_, next⟩, checked, same⟩ := bindOk.mp h
      cases same
      have listed := all found (List.mem_of_getElem? held)
      exact ⟨rfl, Comment.rereadsSet held (NodeExpectation.checkAllReread inside checked listed)⟩
  | _ => cases h; exact readSame _

theorem checkRead {f g : FullComment} {mismatch} (expectations : List TreeExpectation)
    (h : f.check expectations = .ok (mismatch, g)) (all : ∀ c ∈ f.blocks, Everywhere Cached c) :
    Read f g := by
  induction expectations generalizing f with
  | nil => cases h; exact readSame _
  | cons e rest ih =>
    obtain ⟨⟨found, next⟩, checked, h⟩ := bindOk.mp h
    have first := expectationRead e checked all
    cases found with
    | some mismatch => cases h; exact first
    | none =>
      have later := ih h (Comment.rereadsEverywhere cachedStable first.blocks all)
      exact ⟨later.header.trans first.header, Comment.rereadsTrans first.blocks later.blocks⟩

theorem settleRead {f g : FullComment} (h : f.settle = .ok g)
    (all : ∀ c ∈ f.blocks, Everywhere Cached c) : Read f g := by
  obtain ⟨after, settled, same⟩ := bindOk.mp h
  cases same
  obtain ⟨_, done, related⟩ :=
    Comment.settleAllHolds fun c member => Comment.settleHolds c (all c member)
  cases settled.symm.trans done
  exact ⟨rfl, related⟩

theorem settleTotal {f : FullComment} (all : ∀ c ∈ f.blocks, Everywhere Cached c) :
    ∃ g, f.settle = .ok g := by
  obtain ⟨blocks, settled, _⟩ :=
    Comment.settleAllHolds fun c member => Comment.settleHolds c (all c member)
  exact ⟨_, bindOk.mpr ⟨blocks, settled, rfl⟩⟩

theorem snapshotTotal {f : FullComment} (t : CommandTable)
    (all : ∀ c ∈ f.blocks, Everywhere Cached c) : ∃ s, f.snapshot t = .ok s := by
  obtain ⟨ss, each⟩ :=
    Comment.mapTotal fun c member => Comment.snapshotHolds t c (all c member)
  exact ⟨_, bindOk.mpr ⟨ss, each, rfl⟩⟩

theorem performRead {t step answer} {f g : FullComment}
    (h : f.perform t step = .ok (answer, g)) (all : ∀ c ∈ f.blocks, Everywhere Cached c) :
    Read f g ∨ ∃ problems, f.resolve = .ok (problems, g) := by
  cases step with
  | resolve =>
    obtain ⟨⟨problems, next⟩, resolved, same⟩ := bindOk.mp h
    cases same
    exact .inr ⟨problems, resolved⟩
  | outline | json =>
    obtain ⟨_, _, rest⟩ := bindOk.mp h
    obtain ⟨next, settled, same⟩ := bindOk.mp rest
    cases same
    exact .inl (settleRead settled all)
  | paramNames =>
    obtain ⟨_, _, same⟩ := bindOk.mp h
    cases same
    exact .inl (readSame _)
  | declInfo =>
    cases h
    exact .inl ⟨rfl, Comment.rereadsSame _⟩
  | expect expectations =>
    obtain ⟨⟨_, next⟩, checked, same⟩ := bindOk.mp h
    cases same
    exact .inl (checkRead expectations checked all)
  | _ => cases h; exact .inl (readSame _)

end FullComment
end DocTree
