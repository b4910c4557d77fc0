import DocTree.Fault
import DocTree.LineTable
import Mathlib.Data.List.TakeWhile

/-! Lines as bytes count them. The line starts are the places right after the newline bytes of a
text, in increasing order, so the last start at or before a byte belongs to one line alone: the
one that counting newlines gives, and the one that halving the starts ends at. -/
namespace DocTree.LineTable

def newline : UInt8 := 10

def bytesOf (source : String) : List UInt8 := source.toUTF8.data.toList

def afterNewlines (place : Nat) : List UInt8 → List Nat
  | [] => []
  | b :: rest =>
    if b = newline then (place + 1) :: afterNewlines (place + 1) rest
    else afterNewlines (place + 1) rest

variable {place byte : Nat} {bytes : List UInt8}

theorem afterAppend (place : Nat) (left right : List UInt8) : afterNewlines place (left ++ right) =
    afterNewlines place left ++ afterNewlines (place + left.length) right := by
  induction left generalizing place with
  | nil => rfl
  | cons b rest ih =>
    have places : place + (b :: rest).length = place + 1 + rest.length := by
      rw [List.length_cons]
      omega
    rw [List.cons_append, afterNewlines, afterNewlines, ih, places]
    split <;> rfl

theorem afterNone (place : Nat) (none : newline ∉ bytes) : afterNewlines place bytes = [] := by
  induction bytes generalizing place with
  | nil => rfl
  | cons b rest ih =>
    rw [List.mem_cons, not_or] at none
    rw [afterNewlines, if_neg (Ne.symm none.1), ih _ none.2]

theorem afterCount (place : Nat) (bytes : List UInt8) :
    (afterNewlines place bytes).length = bytes.count newline := by
  induction bytes generalizing place with
  | nil => rfl
  | cons b rest ih =>
    rw [afterNewlines, List.count_cons]
    split <;> simp_all

theorem afterBeyond {start : Nat} (member : start ∈ afterNewlines place bytes) :
    place < start := by
  induction bytes generalizing place with
  | nil => cases member
  | cons b rest ih =>
    rw [afterNewlines] at member
    split at member
    · rcases List.mem_cons.mp member with rfl | later
      · exact Nat.lt_succ_self place
      · exact Nat.lt_of_succ_lt (ih later)
    · exact Nat.lt_of_succ_lt (ih member)

theorem afterIncreasing (place : Nat) (bytes : List UInt8) :
    (afterNewlines place bytes).Pairwise (· < ·) := by
  induction bytes generalizing place with
  | nil => exact .nil
  | cons b rest ih =>
    rw [afterNewlines]
    split
    · exact .cons (fun _ => afterBeyond) (ih _)
    · exact ih _

theorem afterReached (place byte : Nat) (bytes : List UInt8) :
    (afterNewlines place bytes).takeWhile (· ≤ byte) =
      afterNewlines place (bytes.take (byte - place)) := by
  induction bytes generalizing place with
  | nil => simp [afterNewlines]
  | cons b rest ih =>
    by_cases inside : place < byte
    · have one : byte - place = (byte - (place + 1)) + 1 := by omega
      rw [one, List.take_succ_cons, afterNewlines, afterNewlines, ← ih]
      split
      · rw [List.takeWhile_cons_of_pos (by simpa [Nat.succ_le_iff] using inside)]
      · rfl
    · have none : byte - place = 0 := by omega
      rw [none, List.take_zero]
      refine List.takeWhile_eq_nil_iff.mpr fun listed => ?_
      have beyond := afterBeyond (List.get_mem _ ⟨0, listed⟩)
      rw [decide_eq_true_eq]
      omega

theorem highByte {x high : UInt8} (set : high.toNat.testBit 7) : 128 ≤ (x ||| high).toNat := by
  have bit : (x ||| high).toNat.testBit 7 = true := by
    rw [UInt8.toNat_or, Nat.testBit_or, set, Bool.or_true]
  exact Nat.ge_two_pow_of_testBit bit

theorem encodedBytes (c : Char) :
    c.val.toNat < 128 ∧ String.utf8EncodeChar c = [c.val.toUInt8] ∨
      128 ≤ c.val.toNat ∧ String.utf8EncodeChar c ≠ [] ∧
        ∀ b ∈ String.utf8EncodeChar c, 128 ≤ b.toNat := by
  by_cases one : c.utf8Size = 1
  · have small : c.val.toNat ≤ 127 := UInt32.le_iff_toNat_le.mp (Char.utf8Size_eq_one_iff.mp one)
    exact .inl ⟨by omega, String.utf8EncodeChar_eq_singleton one⟩
  · have large : ¬ c.val.toNat ≤ 127 := fun small =>
      one (Char.utf8Size_eq_one_iff.mpr (UInt32.le_iff_toNat_le.mpr small))
    refine .inr ⟨by omega, ?_⟩
    rcases c.utf8Size_eq with first | two | three | four
    · exact absurd first one
    · rw [String.utf8EncodeChar_eq_cons_cons two]
      simp only [List.forall_mem_cons]
      exact ⟨nofun, highByte (by decide), highByte (by decide), nofun⟩
    · rw [String.utf8EncodeChar_eq_cons_cons_cons three]
      simp only [List.forall_mem_cons]
      exact ⟨nofun, highByte (by decide), highByte (by decide), highByte (by decide), nofun⟩
    · rw [String.utf8EncodeChar_eq_cons_cons_cons_cons four]
      simp only [List.forall_mem_cons]
      exact ⟨nofun, highByte (by decide), highByte (by decide),
        highByte (by decide), highByte (by decide), nofun⟩

theorem lowSame {c d : Char} (left : c.val.toNat < 128) (right : d.val.toNat < 128) :
    c.val.toUInt8 = d.val.toUInt8 ↔ c = d := by
  refine ⟨fun same => ?_, fun same => same ▸ rfl⟩
  have number := congrArg UInt8.toNat same
  rw [UInt32.toNat_toUInt8, UInt32.toNat_toUInt8, Nat.mod_eq_of_lt (by omega),
    Nat.mod_eq_of_lt (by omega)] at number
  exact Char.ext (UInt32.toNat_inj.mp number)

theorem newlineEncoded (c : Char) : newline ∈ String.utf8EncodeChar c ↔ c = '\n' := by
  rcases encodedBytes c with ⟨low, one⟩ | ⟨high, _, bytes⟩
  · rw [one, List.mem_singleton, ← lowSame low (by decide : '\n'.val.toNat < 128), eq_comm]
    rfl
  · refine iff_of_false (fun member => absurd (bytes _ member) (by decide)) ?_
    rintro rfl
    exact absurd high (by decide)

theorem bytesEncoded (source : String) :
    bytesOf source = source.toList.flatMap String.utf8EncodeChar := by
  show source.toByteArray.data.toList = _
  rw [← String.utf8Encode_toList, List.utf8Encode, List.data_toByteArray]

theorem startsEncoded (place : Nat) (cs : List Char) :
    startsFrom place cs = afterNewlines place (cs.flatMap String.utf8EncodeChar) := by
  induction cs generalizing place with
  | nil => rfl
  | cons c rest ih =>
    rw [List.flatMap_cons, afterAppend, String.length_utf8EncodeChar, ← ih, startsFrom]
    by_cases breaks : c = '\n'
    · subst breaks
      rfl
    · rw [if_neg breaks, afterNone _ (mt (newlineEncoded c).mp breaks), List.nil_append]

theorem laterBytes (source : String) :
    (ofSource source).later = afterNewlines 0 (bytesOf source) := by
  rw [bytesEncoded]
  exact startsEncoded 0 source.toList

def starts (t : LineTable) : List Nat := 0 :: t.later

structure Reaches (starts : List Nat) (byte line start : Nat) : Prop where
  entry : starts[line]? = some start
  reached : start ≤ byte
  last : ∀ later next, line < later → starts[later]? = some next → byte < next

theorem reachesUnique {starts : List Nat} {line start other next : Nat}
    (left : Reaches starts byte line start) (right : Reaches starts byte other next) :
    line = other ∧ start = next := by
  have leftReached := left.reached
  have rightReached := right.reached
  rcases Nat.lt_trichotomy line other with before | rfl | after
  · have := left.last other next before right.entry
    omega
  · exact ⟨rfl, Option.some.inj (left.entry.symm.trans right.entry)⟩
  · have := right.last line start after left.entry
    omega

theorem pastReached {later : List Nat} (increasing : later.Pairwise (· < ·)) {next : Nat}
    (member : next ∈ later.dropWhile (· ≤ byte)) : byte < next := by
  induction later with
  | nil => cases member
  | cons start rest ih =>
    obtain ⟨above, others⟩ := List.pairwise_cons.mp increasing
    by_cases reached : start ≤ byte
    · rw [List.dropWhile_cons_of_pos (by simpa using reached)] at member
      exact ih others member
    · rw [List.dropWhile_cons_of_neg (by simpa using reached)] at member
      rcases List.mem_cons.mp member with rfl | later
      · exact Nat.lt_of_not_le reached
      · exact Nat.lt_trans (Nat.lt_of_not_le reached) (above next later)

variable {t : LineTable}

theorem positionReaches (increasing : t.later.Pairwise (· < ·)) (byte : Nat) :
    ∃ line start, t.positionOf byte = ⟨line, byte - start⟩ ∧ Reaches t.starts byte line start := by
  let reached := t.later.takeWhile (· ≤ byte)
  have split : t.starts = (0 :: reached) ++ t.later.dropWhile (· ≤ byte) := by
    rw [List.cons_append, List.takeWhile_append_dropWhile]
    rfl
  have entry : (0 :: reached)[reached.length]? = some (reached.getLastD 0) := by
    have last : (0 :: reached).getLast? = some (reached.getLast?.getD 0) := List.getLast?_cons
    rwa [List.getLast?_eq_getElem?, ← List.getLastD_eq_getLast?] at last
  refine ⟨reached.length, reached.getLastD 0, rfl, ?_, ?_, ?_⟩
  · rw [split, List.getElem?_append_left (by simp), entry]
  · have listed := List.mem_of_getElem? entry
    rcases List.mem_cons.mp listed with zero | inside
    · omega
    · simpa using List.mem_takeWhile_imp inside
  · intro later next past held
    rw [split, List.getElem?_append_right (by simpa [Nat.succ_le_iff] using past)] at held
    exact pastReached increasing (List.mem_of_getElem? held)

/-- Looks for a number among increasing ones, between two indices: the index where it stands, or
else the one where it would have to stand. Nothing comes of it where an index leads nowhere. -/
def seek (starts : List Nat) (byte low high : Nat) : Option (Except Nat Nat) :=
  if low < high then
    let middle := low + (high - low) / 2
    match starts[middle]? with
    | none => none
    | some start =>
      if start = byte then some (.ok middle)
      else if start < byte then seek starts byte (middle + 1) high
      else seek starts byte low middle
  else some (.error low)
termination_by high - low

inductive Sought (starts : List Nat) (byte : Nat) : Except Nat Nat → Prop where
  | found {i} (entry : starts[i]? = some byte) : Sought starts byte (.ok i)
  | missing {i} (inside : i ≤ starts.length)
      (before : ∀ j start, j < i → starts[j]? = some start → start < byte)
      (after : ∀ j start, i ≤ j → starts[j]? = some start → byte < start) :
      Sought starts byte (.error i)

theorem inOrder {starts : List Nat} (increasing : starts.Pairwise (· < ·)) {i j left right : Nat}
    (order : i ≤ j) (first : starts[i]? = some left) (second : starts[j]? = some right) :
    left ≤ right := by
  obtain ⟨inside, rfl⟩ := List.getElem?_eq_some_iff.mp first
  obtain ⟨within, rfl⟩ := List.getElem?_eq_some_iff.mp second
  rcases Nat.lt_or_eq_of_le order with less | rfl
  · exact Nat.le_of_lt (List.pairwise_iff_getElem.mp increasing i j inside within less)
  · exact Nat.le_refl _

theorem seekSought {starts : List Nat} (increasing : starts.Pairwise (· < ·)) (byte : Nat)
    {low high : Nat} (order : low ≤ high) (inside : high ≤ starts.length)
    (before : ∀ j start, j < low → starts[j]? = some start → start < byte)
    (after : ∀ j start, high ≤ j → starts[j]? = some start → byte < start) :
    ∃ found, seek starts byte low high = some found ∧ Sought starts byte found := by
  fun_induction seek starts byte low high with
  | case1 low high less middle none =>
    have listed : middle < starts.length := by omega
    rw [List.getElem?_eq_getElem listed] at none
    cases none
  | case2 low high less middle entry => exact ⟨_, rfl, .found entry⟩
  | case3 low high less middle start entry other below ih =>
    refine ih (by omega) inside (fun j left early held => ?_) after
    exact Nat.lt_of_le_of_lt (inOrder increasing (Nat.le_of_lt_succ early) held entry) below
  | case4 low high less middle start entry other above ih =>
    refine ih (by omega) (by omega) before fun j right late held => ?_
    have := inOrder increasing late entry held
    omega
  | case5 low high empty =>
    have same : low = high := by omega
    subst same
    exact ⟨_, rfl, .missing inside before after⟩

def less (a b : Nat) : Option Nat := if b ≤ a then some (a - b) else none

def lineFound : Except Nat Nat → Option Nat
  | .ok line => some line
  | .error next => less next 1

def locate (t : LineTable) (byte : Nat) : Option Position := do
  let line ← lineFound (← seek t.starts byte 0 t.starts.length)
  let column ← less byte (← t.starts[line]?)
  return ⟨line, column⟩

theorem soughtReaches (increasing : t.starts.Pairwise (· < ·)) {found : Except Nat Nat}
    (sought : Sought t.starts byte found) :
    ∃ line start, lineFound found = some line ∧ Reaches t.starts byte line start := by
  cases sought with
  | @found i entry =>
    refine ⟨i, byte, rfl, entry, Nat.le_refl byte, fun later next past held => ?_⟩
    obtain ⟨inside, rfl⟩ := List.getElem?_eq_some_iff.mp entry
    obtain ⟨within, rfl⟩ := List.getElem?_eq_some_iff.mp held
    exact List.pairwise_iff_getElem.mp increasing i later inside within past
  | @missing i inside before after =>
    have first : 0 < i := by
      refine Nat.pos_of_ne_zero fun zero => ?_
      exact absurd (after 0 0 (by omega) rfl) (Nat.not_lt_zero byte)
    have listed : i - 1 < t.starts.length := by omega
    have entry : t.starts[i - 1]? = some t.starts[i - 1] := List.getElem?_eq_getElem listed
    refine ⟨i - 1, t.starts[i - 1], if_pos first, entry, ?_, fun later next past held => ?_⟩
    · exact Nat.le_of_lt (before (i - 1) _ (by omega) entry)
    · exact after later next (by omega) held

theorem locatePosition (increasing : t.starts.Pairwise (· < ·)) (byte : Nat) :
    t.locate byte = some (t.positionOf byte) := by
  obtain ⟨line, start, position, reaches⟩ := positionReaches increasing.of_cons byte
  obtain ⟨found, ends, sought⟩ := seekSought increasing byte (Nat.zero_le _)
    (Nat.le_refl t.starts.length) nofun
    (fun j start late held => by
      have := (List.getElem?_eq_some_iff.mp held).1
      omega)
  obtain ⟨other, next, taken, seen⟩ := soughtReaches increasing sought
  obtain ⟨rfl, rfl⟩ := reachesUnique reaches seen
  have column : less byte start = some (byte - start) := if_pos reaches.reached
  simp [locate, ends, position, taken, reaches.entry, column]

theorem startsIncreasing (source : String) : (ofSource source).starts.Pairwise (· < ·) := by
  unfold starts
  rw [laterBytes]
  exact .cons (fun _ => afterBeyond) (afterIncreasing 0 _)

theorem positionsCount (source : String) :
    (ofSource source).lineCount = (bytesOf source).count newline + 1 ∧
    ∀ byte, (ofSource source).locate byte = some ((ofSource source).positionOf byte) ∧
      ((ofSource source).positionOf byte).line = ((bytesOf source).take byte).count newline ∧
      (newline ∉ (bytesOf source).take byte →
        ((ofSource source).positionOf byte).column = byte) ∧
      ∀ before after, (bytesOf source).take byte = before ++ newline :: after →
        newline ∉ after →
        ((ofSource source).positionOf byte).column + (before.length + 1) = byte := by
  have later : (ofSource source).later = afterNewlines 0 (bytesOf source) := laterBytes source
  have reached (byte : Nat) : (ofSource source).later.takeWhile (· ≤ byte) =
      afterNewlines 0 ((bytesOf source).take byte) := by
    rw [later, afterReached, Nat.sub_zero]
  refine ⟨?_, fun byte => ⟨locatePosition (startsIncreasing source) byte, ?_, ?_, ?_⟩⟩
  · rw [lineCount, later, afterCount]
  · rw [positionOf, reached]
    exact afterCount 0 _
  · intro none
    rw [positionOf, reached, afterNone 0 none]
    rfl
  · intro before after split none
    have place : (afterNewlines 0 ((bytesOf source).take byte)).getLastD 0 =
        before.length + 1 := by
      rw [split, afterAppend, afterNewlines, if_pos rfl, afterNone _ none]
      simp
    have short := List.length_take_le byte (bytesOf source)
    rw [split, List.length_append, List.length_cons] at short
    rw [positionOf, reached, place]
    show byte - (before.length + 1) + (before.length + 1) = byte
    omega

example : ((ofSource "é\n\nb").positionOf 1, (ofSource "é\n\nb").positionOf 2,
    (ofSource "é\n\nb").positionOf 9) = (⟨0, 1⟩, ⟨0, 2⟩, ⟨2, 5⟩) := by decide

end DocTree.LineTable
