import DocTree.Proofs.Nesting

/-! What a walk tells of the tree it goes through. Its events nest like brackets: every node is
entered once and left once, with the walks of its children in between. And they tell the tree
itself: the depths of the entered nodes alone say which of them are whose children. -/
namespace DocTree

/-- Each event has one partner, the nearest one at its depth on its side, and everything in
between lies deeper. -/
structure WellNested (events : List Event) : Prop where
  entered : ∀ before kind depth rest, events = before ++ .enter kind depth :: rest →
    ∃! parts : List Event × List Event, rest = parts.1 ++ .leave kind depth :: parts.2 ∧
      ∀ e ∈ parts.1, depth < e.depth
  left : ∀ rest kind depth after, events = rest ++ .leave kind depth :: after →
    ∃! parts : List Event × List Event, rest = parts.1 ++ .enter kind depth :: parts.2 ∧
      ∀ e ∈ parts.2, depth < e.depth

abbrev Trail := List (List Nat × Event)

def Comment.Walked (c : Comment) (path : List Nat) (depth : Nat) (trail : Trail) : Prop :=
  ∃ before inside after : Trail, trail = before ++ (path, .enter c.kind depth) :: inside ++
      (path, .leave c.kind depth) :: after ∧
    inside.map Prod.snd = c.children.flatMap (·.eventsAt (depth + 1))

structure Trail.Walks (trail : Trail) (node? : List Nat → Option Comment)
    (depth : List Nat → Nat) : Prop where
  distinct : trail.Nodup
  visits : ∀ path e, (path, e) ∈ trail ↔ ∃ c, node? path = some c ∧
    (e = .enter c.kind (depth path) ∨ e = .leave c.kind (depth path))
  walked : ∀ path c, node? path = some c → c.Walked path (depth path) trail

namespace Comment

theorem eventsDeep (c : Comment) (depth : Nat) : ∀ e ∈ c.eventsAt depth, depth ≤ e.depth := by
  induction c using inductChildren generalizing depth with
  | step c ih =>
    intro e member
    rw [eventsAt_eq, List.mem_append, List.mem_cons, List.mem_singleton, List.mem_flatMap] at member
    rcases member with (rfl | ⟨d, child, event⟩) | rfl
    · exact Nat.le_refl _
    · have deep := ih d child (depth + 1) e event
      omega
    · exact Nat.le_refl _

theorem childrenDeep (c : Comment) (depth : Nat) :
    ∀ e ∈ c.children.flatMap (·.eventsAt (depth + 1)), depth < e.depth := by
  intro e member
  obtain ⟨d, _, event⟩ := List.mem_flatMap.mp member
  exact eventsDeep d (depth + 1) e event

end Comment

theorem firstMeets {α : Type} {xs ys us vs : List α} {a : α}
    (same : xs ++ a :: ys = us ++ a :: vs) (left : a ∉ xs) (right : a ∉ us) :
    xs = us ∧ ys = vs := by
  rcases List.append_eq_append_iff.mp same with ⟨more, rfl, rest⟩ | ⟨more, rfl, rest⟩ <;>
    cases more <;> simp_all

theorem lastMeets {α : Type} {xs ys us vs : List α} {a : α}
    (same : xs ++ a :: ys = us ++ a :: vs) (left : a ∉ ys) (right : a ∉ vs) :
    xs = us ∧ ys = vs := by
  have turned : ys.reverse ++ a :: xs.reverse = vs.reverse ++ a :: us.reverse := by
    simpa using congrArg List.reverse same
  obtain ⟨last, first⟩ := firstMeets turned (by simpa using left) (by simpa using right)
  exact ⟨List.reverse_inj.mp first, List.reverse_inj.mp last⟩

namespace Trail

variable {trail : Trail} {node? : List Nat → Option Comment} {depth : List Nat → Nat}

theorem deeperApart {events : List Event} {e : Event} (deeper : ∀ x ∈ events, e.depth < x.depth) :
    e ∉ events := fun member => Nat.lt_irrefl _ (deeper e member)

theorem distinctMeets {α : Type} {xs ys us vs : List α} {a : α} (distinct : (xs ++ a :: ys).Nodup)
    (same : xs ++ a :: ys = us ++ a :: vs) : xs = us ∧ ys = vs := by
  have before {zs ws : List α} (distinct : (zs ++ a :: ws).Nodup) : a ∉ zs := fun member =>
    (List.nodup_cons.mp (List.nodup_middle.mp distinct)).1 (List.mem_append_left _ member)
  exact firstMeets same (before distinct) (before (same ▸ distinct))

variable (walks : trail.Walks node? depth)
include walks

theorem entryLeft {before rest : List Event} {kind n}
    (split : trail.map Prod.snd = before ++ .enter kind n :: rest) :
    ∃ inside after, rest = inside ++ .leave kind n :: after ∧ ∀ e ∈ inside, n < e.depth := by
  obtain ⟨start, _, rfl, _, here⟩ := List.map_eq_append_iff.mp split
  obtain ⟨⟨path, _⟩, others, rfl, rfl, rfl⟩ := List.map_eq_cons_iff.mp here
  obtain ⟨c, found, same⟩ := (walks.visits path (.enter kind n)).mp (by simp)
  obtain ⟨rfl, rfl⟩ : kind = c.kind ∧ n = depth path := by simpa using same
  obtain ⟨_, inside, after, whole, events⟩ := walks.walked path c found
  rw [List.append_assoc] at whole
  obtain ⟨_, rfl⟩ := distinctMeets walks.distinct whole
  exact ⟨inside.map Prod.snd, after.map Prod.snd, by simp, events ▸ c.childrenDeep _⟩

theorem leaveEntered {rest after : List Event} {kind n}
    (split : trail.map Prod.snd = rest ++ .leave kind n :: after) :
    ∃ before inside, rest = before ++ .enter kind n :: inside ∧ ∀ e ∈ inside, n < e.depth := by
  obtain ⟨start, _, rfl, rfl, here⟩ := List.map_eq_append_iff.mp split
  obtain ⟨⟨path, _⟩, others, rfl, rfl, rfl⟩ := List.map_eq_cons_iff.mp here
  obtain ⟨c, found, same⟩ := (walks.visits path (.leave kind n)).mp (by simp)
  obtain ⟨rfl, rfl⟩ : kind = c.kind ∧ n = depth path := by simpa using same
  obtain ⟨before, inside, _, whole, events⟩ := walks.walked path c found
  obtain ⟨rfl, _⟩ := distinctMeets walks.distinct whole
  exact ⟨before.map Prod.snd, inside.map Prod.snd, by simp, events ▸ c.childrenDeep _⟩

theorem wellNested : WellNested (trail.map Prod.snd) where
  entered before kind n rest split := by
    obtain ⟨inside, after, rfl, deeper⟩ := entryLeft walks split
    refine ⟨(inside, after), ⟨rfl, deeper⟩, ?_⟩
    rintro ⟨others, last⟩ ⟨same, deep⟩
    -- The two parts end at the first event that leaves a node at this depth, so they are one.
    have apart {events : List Event} (deeper : ∀ e ∈ events, n < e.depth) :
        .leave kind n ∉ events := deeperApart deeper
    obtain ⟨first, second⟩ := firstMeets same (apart deeper) (apart deep)
    exact Prod.ext first.symm second.symm
  left rest kind n after split := by
    obtain ⟨before, inside, rfl, deeper⟩ := leaveEntered walks split
    refine ⟨(before, inside), ⟨rfl, deeper⟩, ?_⟩
    rintro ⟨first, others⟩ ⟨same, deep⟩
    have apart {events : List Event} (deeper : ∀ e ∈ events, n < e.depth) :
        .enter kind n ∉ events := deeperApart deeper
    obtain ⟨left, right⟩ := lastMeets same (apart deeper) (apart deep)
    exact Prod.ext left.symm right.symm

end Trail
namespace Comment

def trail : Comment → Nat → Trail :=
  fold fun c below depth =>
    ([], .enter c.kind depth) :: inChildren (below.map fun walk => walk (depth + 1)) ++
      [([], .leave c.kind depth)]

theorem trail_eq (c : Comment) (depth : Nat) : c.trail depth =
    ([], .enter c.kind depth) :: inChildren (c.children.map fun d => d.trail (depth + 1)) ++
      [([], .leave c.kind depth)] := by
  simp only [trail]
  rw [fold_eq]
  simp [Function.comp_def]

theorem trailEvents (c : Comment) (depth : Nat) :
    (c.trail depth).map Prod.snd = c.eventsAt depth := by
  induction c using inductChildren generalizing depth with
  | step c ih =>
    have below : c.children.flatMap (fun d => (d.trail (depth + 1)).map Prod.snd) =
        c.children.flatMap fun d => d.eventsAt (depth + 1) :=
      List.flatMap_congr fun d member => ih d member (depth + 1)
    rw [trail_eq, eventsAt_eq, ← below]
    simp [inChildrenEntries, List.flatMap_map]

theorem trailDistinct (c : Comment) (depth : Nat) : (c.trail depth).Nodup := by
  induction c using inductChildren generalizing depth with
  | step c ih =>
    have inside : (inChildren (c.children.map fun d => d.trail (depth + 1))).Nodup := by
      refine inChildrenDistinct fun inner member => ?_
      obtain ⟨d, child, rfl⟩ := List.mem_map.mp member
      exact ih d child (depth + 1)
    rw [trail_eq, List.cons_append, List.nodup_cons, ← List.concat_eq_append, List.nodup_concat]
    simp [inside, inChildrenRoot]

variable {depth : Nat}

theorem visitsBelow (cs : List Comment) (i : Nat) {path : List Nat} {e : Event}
    (each : ∀ c ∈ cs, (path, e) ∈ c.trail depth ↔ ∃ d, c.at? path = some d ∧
      (e = .enter d.kind (depth + path.length) ∨ e = .leave d.kind (depth + path.length))) :
    (i :: path, e) ∈ inChildren (cs.map fun c => c.trail depth) ↔
      ∃ d, cs[i]?.bind (at? path) = some d ∧
        (e = .enter d.kind (depth + path.length) ∨ e = .leave d.kind (depth + path.length)) := by
  rw [inChildrenAt, List.getElem?_map]
  cases held : cs[i]? with
  | none => simp
  | some c => simp [each c (List.mem_of_getElem? held)]

theorem trailVisits (c : Comment) (depth : Nat) (path : List Nat) (e : Event) :
    (path, e) ∈ c.trail depth ↔ ∃ d, c.at? path = some d ∧
      (e = .enter d.kind (depth + path.length) ∨ e = .leave d.kind (depth + path.length)) := by
  induction path generalizing c depth with
  | nil =>
    rw [trail_eq]
    simp [inChildrenRoot, at?]
  | cons i path ih =>
    have below := visitsBelow c.children i fun d _ => ih d (depth + 1)
    rw [trail_eq, List.length_cons, Nat.add_comm path.length, ← Nat.add_assoc]
    simp [below, at?]

theorem walkedBelow {cs : List Comment} {c d : Comment} {i n : Nat} {path : List Nat} (held : cs[i]? = some c)
    (walked : Walked d path n (c.trail depth)) :
    Walked d (i :: path) n (inChildren (cs.map fun c => c.trail depth)) := by
  obtain ⟨before, inside, after, whole, events⟩ := walked
  have listed : (cs.map fun c => c.trail depth)[i]? = some (c.trail depth) := by simp [held]
  obtain ⟨first, last, together⟩ := inChildrenTogether listed
  refine ⟨first ++ inChild i before, inChild i inside, inChild i after ++ last, ?_, ?_⟩
  · rw [← together, whole]
    simp [inChild]
  · rw [inChildEntries, events]

theorem trailWalked {c d : Comment} (depth : Nat) {path : List Nat} (found : c.at? path = some d) :
    Walked d path (depth + path.length) (c.trail depth) := by
  induction path generalizing c depth with
  | nil =>
    cases found
    refine ⟨[], inChildren (d.children.map fun e => e.trail (depth + 1)), [], ?_, ?_⟩
    · simpa using trail_eq d depth
    · simp [inChildrenEntries, List.flatMap_map, trailEvents]
  | cons i path ih =>
    obtain ⟨e, held, found⟩ := Option.bind_eq_some_iff.mp found
    have below := walkedBelow held (ih (depth + 1) found)
    obtain ⟨before, inside, after, whole, events⟩ := below
    rw [List.length_cons, Nat.add_comm path.length, ← Nat.add_assoc]
    refine ⟨([], .enter c.kind depth) :: before, inside, after ++ [([], .leave c.kind depth)], ?_,
      events⟩
    rw [trail_eq, whole]
    simp

theorem trailWalks (c : Comment) : (c.trail 0).Walks (fun path => c.at? path) List.length where
  distinct := c.trailDistinct 0
  visits path e := by simpa using c.trailVisits 0 path e
  walked path d found := by simpa using trailWalked 0 found

end Comment

namespace FullComment

def trail (f : FullComment) : Trail := inChildren (f.blocks.map fun c => c.trail 0)

theorem trailEvents (f : FullComment) : f.trail.map Prod.snd = f.events := by
  unfold trail events Comment.events
  simp [inChildrenEntries, List.flatMap_map, Comment.trailEvents]

theorem trailWalks (f : FullComment) :
    f.trail.Walks (fun path => f.at? path) (fun path => path.length - 1) where
  distinct := by
    refine inChildrenDistinct fun inner member => ?_
    obtain ⟨c, _, rfl⟩ := List.mem_map.mp member
    exact c.trailDistinct 0
  visits path e := by
    cases path with
    | nil => simp [trail, inChildrenRoot, at?]
    | cons i path =>
      have below := Comment.visitsBelow f.blocks i fun c _ => c.trailVisits 0 path e
      simpa [trail, at?] using below
  walked path d found := by
    cases path with
    | nil => cases found
    | cons i path =>
      obtain ⟨c, held, found⟩ := Option.bind_eq_some_iff.mp found
      have below := Comment.walkedBelow held (Comment.trailWalked 0 found)
      simpa [trail] using below

end FullComment

inductive KindTree where
  | node (kind : Kind) (children : List KindTree)

namespace KindTree

def kindAt? : List Nat → KindTree → Option Kind
  | [], .node kind _ => some kind
  | i :: path, .node _ children => children[i]?.bind (kindAt? path)

def plant (entry : Kind × Nat) (trees : List (Nat × KindTree)) : List (Nat × KindTree) :=
  let below := trees.takeWhile fun tree => entry.2 < tree.1
  (entry.2, .node entry.1 (below.map Prod.snd)) :: trees.dropWhile fun tree => entry.2 < tree.1

end KindTree

def Event.entered? : Event → Option (Kind × Nat)
  | .enter kind depth => some (kind, depth)
  | .leave _ _ => none

def entered (events : List Event) : List (Kind × Nat) := events.filterMap Event.entered?

namespace Comment

theorem entered_eq (c : Comment) (depth : Nat) : entered (c.eventsAt depth) =
    (c.kind, depth) :: entered (c.children.flatMap (·.eventsAt (depth + 1))) := by
  rw [eventsAt_eq]
  simp [entered, Event.entered?]

def kindTree : Comment → KindTree := fold fun c below => .node c.kind below

theorem kindTree_eq (c : Comment) : c.kindTree = .node c.kind (c.children.map kindTree) := by
  simp only [kindTree]
  rw [fold_eq]

theorem kindTreeAt (c : Comment) (path : List Nat) :
    c.kindTree.kindAt? path = (c.at? path).map kind := by
  induction path generalizing c with
  | nil => rw [kindTree_eq]; rfl
  | cons i path ih =>
    rw [kindTree_eq]
    cases held : c.children[i]? <;> simp [KindTree.kindAt?, at?, held, ih]

def Beside (depth : Nat) (trees : List (Nat × KindTree)) : Prop :=
  ∀ tree ∈ trees.head?, tree.1 ≤ depth

theorem plantAll {cs : List Comment} {depth : Nat} {trees : List (Nat × KindTree)}
    (each : ∀ c ∈ cs, ∀ trees, Beside depth trees →
      (entered (c.eventsAt depth)).foldr KindTree.plant trees = (depth, c.kindTree) :: trees)
    (beside : Beside depth trees) :
    (entered (cs.flatMap (·.eventsAt depth))).foldr KindTree.plant trees =
      cs.map (fun c => (depth, c.kindTree)) ++ trees := by
  induction cs with
  | nil => rfl
  | cons c rest ih =>
    rw [List.forall_mem_cons] at each
    have next : Beside depth (rest.map (fun c => (depth, c.kindTree)) ++ trees) := by
      cases rest with
      | nil => exact beside
      | cons d rest => simp [Beside]
    have others := ih each.2
    unfold entered at *
    rw [List.flatMap_cons, List.filterMap_append, List.foldr_append, others, each.1 _ next]
    rfl

theorem plantEvents (c : Comment) (depth : Nat) (trees : List (Nat × KindTree))
    (beside : Beside depth trees) :
    (entered (c.eventsAt depth)).foldr KindTree.plant trees = (depth, c.kindTree) :: trees := by
  induction c using inductChildren generalizing depth trees with
  | step c ih =>
    have deeper : Beside (depth + 1) trees := fun tree first => Nat.le_succ_of_le (beside tree first)
    have below := plantAll (fun d child => ih d child (depth + 1)) deeper
    have kept : trees.takeWhile (fun tree => depth < tree.1) = [] ∧
        trees.dropWhile (fun tree => depth < tree.1) = trees := by
      cases trees with
      | nil => simp
      | cons tree rest =>
        have near : tree.1 ≤ depth := beside tree rfl
        simp [Nat.not_lt.mpr near]
    rw [entered_eq, List.foldr_cons, below, kindTree_eq]
    simp [KindTree.plant, kept]

def SameKinds (a b : List Nat → Option Comment) : Prop :=
  ∀ path, (a path).map kind = (b path).map kind

theorem eventsBelow {cs ds : List Comment} (depth : Nat)
    (same : ∀ i : Nat, SameKinds (fun path => cs[i]?.bind (at? path))
      fun path => ds[i]?.bind (at? path))
    (each : ∀ c ∈ cs, ∀ d, SameKinds (at? · c) (at? · d) → c.eventsAt depth = d.eventsAt depth) :
    cs.flatMap (·.eventsAt depth) = ds.flatMap (·.eventsAt depth) := by
  have lists : cs.map (·.eventsAt depth) = ds.map (·.eventsAt depth) := by
    refine List.ext_getElem? fun i => ?_
    have here := same i
    cases left : cs[i]? with
    | none =>
      cases right : ds[i]? with
      | none => simp [left, right]
      | some d => simpa [left, right, at?] using here []
    | some c =>
      cases right : ds[i]? with
      | none => simpa [left, right, at?] using here []
      | some d =>
        have equal := each c (List.mem_of_getElem? left) d (by simpa [left, right] using here)
        simp [left, right, equal]
  rw [List.flatMap_def, List.flatMap_def, lists]

theorem eventsKinds {c d : Comment} (same : SameKinds (at? · c) (at? · d)) (depth : Nat) :
    c.eventsAt depth = d.eventsAt depth := by
  induction c using inductChildren generalizing d depth with
  | step c ih =>
    have top : c.kind = d.kind := Option.some.inj (same [])
    have below := eventsBelow (depth + 1) (fun i path => same (i :: path))
      fun e child _ kinds => ih e child kinds (depth + 1)
    rw [eventsAt_eq, eventsAt_eq d, top, below]

theorem kindsEntered {c d : Comment} (same : entered c.events = entered d.events) :
    SameKinds (at? · c) (at? · d) := by
  have left := plantEvents c 0 [] nofun
  have right := plantEvents d 0 [] nofun
  unfold events at same
  rw [same, right] at left
  have trees : d.kindTree = c.kindTree := by simpa using left
  intro path
  rw [← kindTreeAt, ← kindTreeAt, trees]

end Comment

namespace FullComment
open Comment (SameKinds)

theorem eventsKinds {f g : FullComment} (same : SameKinds (at? · f) (at? · g)) :
    f.events = g.events :=
  Comment.eventsBelow 0 (fun i path => same (i :: path)) fun _ _ _ kinds =>
    Comment.eventsKinds kinds 0

theorem kindsEntered {f g : FullComment} (same : entered f.events = entered g.events) :
    SameKinds (at? · f) (at? · g) := by
  have planted (f : FullComment) : (entered f.events).foldr KindTree.plant [] =
      f.blocks.map (fun c => (0, c.kindTree)) ++ [] :=
    Comment.plantAll (fun c _ => c.plantEvents 0) nofun
  have trees : f.blocks.map Comment.kindTree = g.blocks.map Comment.kindTree := by
    have both := planted f
    rw [same, planted g] at both
    simpa [Function.comp_def] using congrArg (List.map Prod.snd) both.symm
  intro path
  cases path with
  | nil => rfl
  | cons i path =>
    have here := congrArg (·[i]?.bind (KindTree.kindAt? path)) trees
    simpa [at?, Option.map_bind, Option.bind_map, Function.comp_def, Comment.kindTreeAt] using here

end FullComment

open Comment (SameKinds) in
theorem walkTells :
    (∀ c : Comment, WellNested c.events ∧ ∃ trail : Trail, trail.map Prod.snd = c.events ∧
      trail.Walks (fun path => c.at? path) List.length) ∧
    (∀ f : FullComment, WellNested f.events ∧ ∃ trail : Trail, trail.map Prod.snd = f.events ∧
      trail.Walks (fun path => f.at? path) fun path => path.length - 1) ∧
    (∀ c d : Comment,
      (c.events = d.events ↔ SameKinds (fun path => c.at? path) fun path => d.at? path) ∧
      (entered c.events = entered d.events ↔ c.events = d.events)) ∧
    ∀ f g : FullComment,
      (f.events = g.events ↔ SameKinds (fun path => f.at? path) fun path => g.at? path) ∧
      (entered f.events = entered g.events ↔ f.events = g.events) := by
  refine ⟨fun c => ⟨?_, c.trail 0, c.trailEvents 0, c.trailWalks⟩,
    fun f => ⟨?_, f.trail, f.trailEvents, f.trailWalks⟩, fun c d => ⟨⟨?_, ?_⟩, ?_, ?_⟩,
    fun f g => ⟨⟨?_, ?_⟩, ?_, ?_⟩⟩
  · have nested := Trail.wellNested c.trailWalks
    rwa [c.trailEvents 0] at nested
  · have nested := Trail.wellNested f.trailWalks
    rwa [f.trailEvents] at nested
  · intro same
    exact Comment.kindsEntered (congrArg entered same)
  · intro kinds
    exact Comment.eventsKinds kinds 0
  · intro same
    exact Comment.eventsKinds (Comment.kindsEntered same) 0
  · intro same
    rw [same]
  · intro same
    exact FullComment.kindsEntered (congrArg entered same)
  · exact FullComment.eventsKinds
  · intro same
    exact FullComment.eventsKinds (FullComment.kindsEntered same)
  · intro same
    rw [same]

end DocTree
