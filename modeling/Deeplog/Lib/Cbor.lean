import Mathlib.Algebra.Order.Ring.Int
import Mathlib.Data.List.Basic
import Mathlib.Tactic.SplitIfs

/-!
# Well-formed CBOR items

Readers take a value from the front of a byte string. The head of a data item is one, and so is
the skipping of a whole item, which keeps a stack of open containers instead of recursing.
Readers are local: they take a prefix of the input, whatever follows it.
-/

namespace Cbor

abbrev Bytes := List UInt8

abbrev Reader (α : Type) := Bytes → Option (α × Bytes)

/-- A reader takes a prefix of its input, whatever follows it. -/
def Reader.Local {α : Type} (read : Reader α) : Prop :=
  ∀ bs a rest, read bs = some (a, rest) →
    ∃ taken, bs = taken ++ rest ∧ ∀ more, read (taken ++ more) = some (a, more)

def Reader.bind {α β : Type} (p : Reader α) (q : α → Reader β) : Reader β :=
  fun bs => (p bs).bind fun x => q x.1 x.2

theorem Reader.Local.bind {α β : Type} {p : Reader α} {q : α → Reader β} (hp : p.Local)
    (hq : ∀ a, (q a).Local) : (p.bind q).Local := by
  intro bs b rest h
  obtain ⟨⟨a, mid⟩, hpa, hqb⟩ := Option.bind_eq_some_iff.mp h
  obtain ⟨t₁, rfl, h₁⟩ := hp _ _ _ hpa
  obtain ⟨t₂, rfl, h₂⟩ := hq a _ _ _ hqb
  refine ⟨t₁ ++ t₂, (List.append_assoc ..).symm, fun more => ?_⟩
  simp [Reader.bind, List.append_assoc, h₁, h₂]

theorem Reader.Local.append {α : Type} {p : Reader α} (hp : p.Local) {bs rest : Bytes} {a : α}
    (h : p bs = some (a, rest)) (more : Bytes) : p (bs ++ more) = some (a, rest ++ more) := by
  obtain ⟨taken, rfl, hmore⟩ := hp _ _ _ h
  rw [List.append_assoc, hmore]

/-- What a reader takes can be read by itself. -/
theorem Reader.Local.eq_some_iff {α : Type} {p : Reader α} (hp : p.Local) {bs rest : Bytes}
    {a : α} :
    p bs = some (a, rest) ↔ ∃ taken, bs = taken ++ rest ∧ p taken = some (a, []) := by
  constructor
  · intro h
    obtain ⟨taken, rfl, hmore⟩ := hp _ _ _ h
    exact ⟨taken, rfl, by simpa using hmore []⟩
  · rintro ⟨taken, rfl, h⟩
    exact hp.append h rest

theorem Reader.Local.length_le {α : Type} {p : Reader α} (hp : p.Local) {bs rest : Bytes} {a : α}
    (h : p bs = some (a, rest)) : rest.length ≤ bs.length := by
  obtain ⟨taken, rfl, -⟩ := hp _ _ _ h
  simp

/-! ## Heads -/

/-- The next `n` bytes. -/
def readBytes (n : Nat) : Reader Bytes := fun bs =>
  if bs.length < n then none else some (bs.take n, bs.drop n)

/-- A big-endian number. -/
def bigEndian (bs : Bytes) : Nat := bs.foldl (fun n b => 256 * n + b.toNat) 0

/-- Major type, additional information and argument. An indefinite length and the break have
no argument. -/
structure Head where
  major : Nat
  info : Nat
  value : Option Nat
  deriving DecidableEq, Repr

def readHead : Reader Head
  | [] => none
  | b :: bs =>
    let major := b.toNat / 32
    let info := b.toNat % 32
    if info < 24 then some (⟨major, info, some info⟩, bs)
    else if info < 28 then
      (readBytes (2 ^ (info - 24)) bs).map fun x => (⟨major, info, some (bigEndian x.1)⟩, x.2)
    else if info = 31 then some (⟨major, info, none⟩, bs)
    else none

/-- The `k` low bytes of a number, big-endian. -/
def toBigEndian : (k value : Nat) → Bytes
  | 0, _ => []
  | k + 1, value => toBigEndian k (value / 256) ++ [.ofNat value]

/-- The shortest head with the given argument. -/
def encodeHead (major value : Nat) : Bytes :=
  let initial (info : Nat) : UInt8 := .ofNat (32 * major + info)
  if value < 24 then [initial value]
  else if value < 2 ^ 8 then initial 24 :: toBigEndian 1 value
  else if value < 2 ^ 16 then initial 25 :: toBigEndian 2 value
  else if value < 2 ^ 32 then initial 26 :: toBigEndian 4 value
  else initial 27 :: toBigEndian 8 value

def encodeInt (n : Int) : Bytes :=
  if 0 ≤ n then encodeHead 0 n.toNat else encodeHead 1 (-1 - n).toNat

def readInt : Reader Int := readHead.bind fun h bs =>
  match h.major, h.value with
  | 0, some n => some (n, bs)
  | 1, some n => some (-1 - n, bs)
  | _, _ => none

theorem toBigEndian_length (k value : Nat) : (toBigEndian k value).length = k := by
  induction k generalizing value with
  | zero => rfl
  | succ k ih => rw [toBigEndian, List.length_append, ih, List.length_singleton]

theorem bigEndian_toBigEndian (k value : Nat) :
    bigEndian (toBigEndian k value) = value % 256 ^ k := by
  induction k generalizing value with
  | zero => rw [Nat.pow_zero, Nat.mod_one]; rfl
  | succ k ih =>
    have hsplit : bigEndian (toBigEndian (k + 1) value) =
        256 * bigEndian (toBigEndian k (value / 256)) + value % 256 := by
      simp [bigEndian, toBigEndian]
    rw [hsplit, ih, Nat.pow_succ', Nat.mod_mul, Nat.add_comm]

theorem readBytes_append {bs : Bytes} {n : Nat} (h : bs.length = n) (rest : Bytes) :
    readBytes n (bs ++ rest) = some (bs, rest) := by
  rw [readBytes, if_neg (by simp; omega), List.take_left' h, List.drop_left' h]

theorem initial_byte {major info : Nat} (hm : major < 8) (hinfo : info < 32) :
    (UInt8.ofNat (32 * major + info)).toNat / 32 = major ∧
      (UInt8.ofNat (32 * major + info)).toNat % 32 = info := by
  rw [UInt8.toNat_ofNat']
  omega

theorem readHead_short {major value : Nat} (hm : major < 8) (hv : value < 24) (rest : Bytes) :
    readHead (UInt8.ofNat (32 * major + value) :: rest) =
      some (⟨major, value, some value⟩, rest) := by
  obtain ⟨hmajor, hinfo⟩ := initial_byte hm (Nat.lt_trans hv (by decide))
  simp only [readHead, hmajor, hinfo, if_pos hv]

theorem readHead_long {major k value : Nat} (hm : major < 8) (hk : k < 4)
    (hv : value < 256 ^ 2 ^ k) (rest : Bytes) :
    readHead (UInt8.ofNat (32 * major + (24 + k)) :: (toBigEndian (2 ^ k) value ++ rest)) =
      some (⟨major, 24 + k, some value⟩, rest) := by
  have hlt : 24 + k < 32 := by omega
  obtain ⟨hmajor, hinfo⟩ := initial_byte hm hlt
  simp only [readHead, hmajor, hinfo]
  rw [if_neg (by omega), if_pos (by omega), Nat.add_sub_cancel_left,
    readBytes_append (toBigEndian_length _ _), Option.map_some, bigEndian_toBigEndian,
    Nat.mod_eq_of_lt hv]

/-- A head is read as it has been written. -/
theorem readHead_encodeHead {major value : Nat} (hm : major < 8) (hv : value < 2 ^ 64)
    (rest : Bytes) : ∃ info, readHead (encodeHead major value ++ rest) =
      some (⟨major, info, some value⟩, rest) ∧ (value < 24 → info < 24) := by
  simp only [encodeHead]
  split_ifs with h1 h2 h3 h4
  · exact ⟨value, readHead_short hm h1 rest, fun _ => h1⟩
  · exact ⟨24, readHead_long (k := 0) hm (by simp) h2 rest, fun h => absurd h h1⟩
  · exact ⟨25, readHead_long (k := 1) hm (by simp) h3 rest, fun h => absurd h h1⟩
  · exact ⟨26, readHead_long (k := 2) hm (by simp) h4 rest, fun h => absurd h h1⟩
  · exact ⟨27, readHead_long (k := 3) hm (by simp) hv rest, fun h => absurd h h1⟩

theorem encodeHead_length (major value : Nat) :
    1 ≤ (encodeHead major value).length ∧ (encodeHead major value).length ≤ 9 ∧
      (value < 24 → (encodeHead major value).length = 1) := by
  simp only [encodeHead]
  split_ifs with h1 <;> simp [toBigEndian_length, h1]

theorem readBytes_local (n : Nat) : (readBytes n).Local := by
  intro bs a rest h
  simp only [readBytes] at h
  split at h <;> cases h
  refine ⟨bs.take n, (List.take_append_drop n bs).symm, fun more => ?_⟩
  have hlen : (bs.take n).length = n := by simp; omega
  rw [readBytes, if_neg (by simp; omega), List.take_left' hlen, List.drop_left' hlen]

theorem readHead_local : readHead.Local := by
  intro bs h rest hr
  cases bs with
  | nil => cases hr
  | cons b bs =>
    simp only [readHead] at hr
    split_ifs at hr with h1 h2 h3
    · cases hr
      exact ⟨[b], rfl, fun more => by simp [readHead, h1]⟩
    · obtain ⟨⟨v, rest'⟩, hu, heq⟩ := Option.map_eq_some_iff.mp hr
      cases heq
      obtain ⟨taken, rfl, hmore⟩ := readBytes_local _ _ _ _ hu
      exact ⟨b :: taken, rfl, fun more => by simp [readHead, h1, h2, hmore]⟩
    · cases hr
      exact ⟨[b], rfl, fun more => by simp [readHead, h3]⟩

theorem readHead_length {bs rest : Bytes} {h : Head} (hr : readHead bs = some (h, rest)) :
    rest.length < bs.length := by
  cases bs with
  | nil => cases hr
  | cons b bs =>
    simp only [readHead] at hr
    split_ifs at hr
    · cases hr; simp
    · obtain ⟨⟨v, rest'⟩, hu, heq⟩ := Option.map_eq_some_iff.mp hr
      cases heq
      have := (readBytes_local _).length_le hu
      simp only [List.length_cons]; omega
    · cases hr; simp

theorem readInt_encodeInt {n : Int} (hlow : -2 ^ 64 ≤ n) (hhigh : n < 2 ^ 64) (rest : Bytes) :
    readInt (encodeInt n ++ rest) = some (n, rest) := by
  rw [encodeInt, readInt]
  split
  case isTrue hpos =>
    have hfits : n.toNat < 2 ^ 64 := by omega
    obtain ⟨info, hread, -⟩ := readHead_encodeHead (by simp : 0 < 8) hfits rest
    simp [Reader.bind, hread, Int.max_eq_left hpos]
  case isFalse hneg =>
    have hfits : (-1 - n).toNat < 2 ^ 64 := by omega
    obtain ⟨info, hread, -⟩ := readHead_encodeHead (by simp : 1 < 8) hfits rest
    simp [Reader.bind, hread]
    omega

/-- An unsigned number of eight bytes, whether or not it needs them. -/
theorem readInt_word {n : Nat} (hn : n < 2 ^ 64) (rest : Bytes) :
    readInt (27 :: (toBigEndian 8 n ++ rest)) = some ((n : Int), rest) := by
  have hread := readHead_long (k := 3) (by simp : 0 < 8) (by simp) hn rest
  simp only [readInt, Reader.bind]
  exact (congrArg (Option.bind · _) hread).trans rfl

theorem readInt_local : readInt.Local := by
  refine readHead_local.bind fun h bs n rest hr => ?_
  split at hr <;> cases hr
  all_goals exact ⟨[], rfl, fun more => rfl⟩

/-! ## Items -/

/-- An open container: so many items to come, items or pairs up to a break, or the chunks of a
string. -/
inductive Frame where
  | items (n : Nat)
  | untilBreak
  | pairs (half : Bool)
  | chunks (major : Nat)

/-- The bytes that follow the head of an item, and the container that it opens. -/
def Head.content (h : Head) : Option (Nat × List Frame) :=
  match h.major, h.value with
  | 0, some _ | 1, some _ => some (0, [])
  | 2, some n | 3, some n => some (n, [])
  | 2, none | 3, none => some (0, [.chunks h.major])
  | 4, some n => some (0, [.items n])
  | 4, none => some (0, [.untilBreak])
  | 5, some n => some (0, [.items (2 * n)])
  | 5, none => some (0, [.pairs false])
  | 6, some _ => some (0, [.items 1])
  | 7, some n => if h.info = 24 ∧ n < 32 then none else some (0, [])
  | _, _ => none

/-- The head of an item inside of the containers `stack`, with the bytes that belong to it. -/
def readItem (stack : List Frame) : Reader (List Frame) :=
  readHead.bind fun h bs => h.content.bind fun (n, frames) =>
    (readBytes n bs).map fun x => (frames ++ stack, x.2)

/-- One chunk of a string of indefinite length. -/
def readChunk (major : Nat) (stack : List Frame) : Reader (List Frame) :=
  readHead.bind fun h bs => match h.value with
    | some n => if h.major = major then (readBytes n bs).map fun x => (stack, x.2) else none
    | none => none

/-- A break, or what `read` makes of the input. -/
def orBreak (stack : Option (List Frame)) (read : Reader (List Frame)) : Reader (List Frame) :=
  fun bs => if bs.head? = some 0xff then stack.map fun stack => (stack, bs.tail) else read bs

def step : List Frame → Reader (List Frame)
  | [] => fun _ => none
  | .items 0 :: stack => fun bs => some (stack, bs)
  | .items (n + 1) :: stack => readItem (.items n :: stack)
  | .untilBreak :: stack => orBreak (some stack) (readItem (.untilBreak :: stack))
  | .pairs half :: stack =>
    orBreak (if half then none else some stack) (readItem (.pairs (!half) :: stack))
  | .chunks major :: stack => orBreak (some stack) (readChunk major (.chunks major :: stack))

/-- Steps until no container is open. -/
def skip : Nat → List Frame → Reader Unit
  | _, [] => fun bs => some ((), bs)
  | 0, _ :: _ => fun _ => none
  | fuel + 1, stack => (step stack).bind (skip fuel)

/-- Skips one complete item. -/
def skipItem : Reader Unit := fun bs => skip (2 * bs.length + 1) [.items 1] bs

/-- A byte string that is one well-formed item. -/
def Item (bs : Bytes) : Prop := skipItem bs = some ((), [])

instance (bs : Bytes) : Decidable (Item bs) := inferInstanceAs (Decidable (_ = _))

theorem Head.content_frames {h : Head} {n : Nat} {frames : List Frame}
    (hc : h.content = some (n, frames)) : frames.length ≤ 1 := by
  unfold Head.content at hc
  grind

theorem readItem_local (stack : List Frame) : (readItem stack).Local := by
  refine readHead_local.bind fun h bs st rest hr => ?_
  obtain ⟨⟨n, frames⟩, hc, hm⟩ := Option.bind_eq_some_iff.mp hr
  obtain ⟨⟨x, rest'⟩, hb, heq⟩ := Option.map_eq_some_iff.mp hm
  cases heq
  obtain ⟨taken, rfl, hmore⟩ := readBytes_local _ _ _ _ hb
  exact ⟨taken, rfl, fun more => by simp [hc, hmore]⟩

theorem readChunk_local (major : Nat) (stack : List Frame) : (readChunk major stack).Local := by
  refine readHead_local.bind fun h bs st rest hr => ?_
  cases hv : h.value with
  | none => simp [hv] at hr
  | some n =>
    simp only [hv] at hr ⊢
    split at hr
    case isFalse => cases hr
    case isTrue hm =>
      obtain ⟨⟨x, rest'⟩, hb, heq⟩ := Option.map_eq_some_iff.mp hr
      cases heq
      obtain ⟨taken, rfl, hmore⟩ := readBytes_local _ _ _ _ hb
      exact ⟨taken, rfl, fun more => by simp [hm, hmore]⟩

/-- A reader of items takes at least the byte it looks at. -/
theorem Reader.Local.orBreak {read : Reader (List Frame)} (hl : read.Local)
    (hpos : ∀ bs st rest, read bs = some (st, rest) → rest.length < bs.length)
    (stack : Option (List Frame)) : (orBreak stack read).Local := by
  intro bs st rest h
  simp only [Cbor.orBreak] at h
  split at h
  case isTrue hb =>
    obtain ⟨stack', rfl, heq⟩ := Option.map_eq_some_iff.mp h
    cases heq
    cases bs with
    | nil => cases hb
    | cons b bs =>
      cases hb
      exact ⟨[0xff], rfl, fun more => by simp [Cbor.orBreak]⟩
  case isFalse hb =>
    have hlen := hpos _ _ _ h
    obtain ⟨taken, rfl, hmore⟩ := hl _ _ _ h
    cases taken with
    | nil => simp at hlen
    | cons b taken =>
      refine ⟨b :: taken, rfl, fun more => ?_⟩
      have hb' : ¬ ((b :: taken) ++ more).head? = some 0xff := by simpa using hb
      rw [Cbor.orBreak, if_neg hb', hmore]

theorem readItem_length {stack st : List Frame} {bs rest : Bytes}
    (h : readItem stack bs = some (st, rest)) :
    rest.length < bs.length ∧ st.length ≤ stack.length + 1 := by
  obtain ⟨⟨hd, bs'⟩, hh, hr⟩ := Option.bind_eq_some_iff.mp h
  obtain ⟨⟨n, frames⟩, hc, hm⟩ := Option.bind_eq_some_iff.mp hr
  obtain ⟨⟨x, rest'⟩, hb, heq⟩ := Option.map_eq_some_iff.mp hm
  cases heq
  have h1 := readHead_length hh
  have h2 := (readBytes_local _).length_le hb
  have h3 := Head.content_frames hc
  simp only [List.length_append] at *
  omega

theorem readChunk_length {major : Nat} {stack st : List Frame} {bs rest : Bytes}
    (h : readChunk major stack bs = some (st, rest)) :
    rest.length < bs.length ∧ st = stack := by
  obtain ⟨⟨hd, bs'⟩, hh, hr⟩ := Option.bind_eq_some_iff.mp h
  have h1 := readHead_length hh
  cases hv : hd.value with
  | none => simp [hv] at hr
  | some n =>
    simp only [hv] at hr
    split at hr
    case isFalse => cases hr
    case isTrue =>
      obtain ⟨⟨x, rest'⟩, hb, heq⟩ := Option.map_eq_some_iff.mp hr
      cases heq
      have h2 := (readBytes_local _).length_le hb
      exact ⟨by simp only at *; omega, rfl⟩

theorem step_local (stack : List Frame) : (step stack).Local := by
  unfold step
  split
  · exact fun bs st rest h => by cases h
  · exact fun bs st rest h => by cases h; exact ⟨[], rfl, fun more => rfl⟩
  · exact readItem_local _
  · exact (readItem_local _).orBreak (fun _ _ _ h => (readItem_length h).1) _
  · exact (readItem_local _).orBreak (fun _ _ _ h => (readItem_length h).1) _
  · exact (readChunk_local _ _).orBreak (fun _ _ _ h => (readChunk_length h).1) _

theorem orBreak_cost {stack : Option (List Frame)} {read : Reader (List Frame)} {k : Nat}
    {bs rest : Bytes} {st : List Frame} (hstack : ∀ st ∈ stack, st.length < k)
    (hread : ∀ st rest, read bs = some (st, rest) →
      st.length + 2 * rest.length < k + 2 * bs.length)
    (h : orBreak stack read bs = some (st, rest)) :
    st.length + 2 * rest.length < k + 2 * bs.length := by
  simp only [orBreak] at h
  split at h
  · obtain ⟨stack', hs, heq⟩ := Option.map_eq_some_iff.mp h
    cases heq
    have := hstack _ hs
    simp only [List.length_tail]; omega
  · exact hread _ _ h

/-- Every step closes a container or takes a byte. -/
theorem step_cost {stack st : List Frame} {bs rest : Bytes}
    (h : step stack bs = some (st, rest)) :
    st.length + 2 * rest.length < stack.length + 2 * bs.length := by
  have hitem : ∀ {fr : Frame} {stack st : List Frame} {rest : Bytes},
      readItem (fr :: stack) bs = some (st, rest) →
      st.length + 2 * rest.length < (stack.length + 1) + 2 * bs.length := by
    intro fr stack st rest h
    have := readItem_length h
    simp only [List.length_cons] at this; omega
  unfold step at h
  split at h
  · cases h
  · cases h; simp
  · exact hitem h
  · exact orBreak_cost (by simp) (fun _ _ => hitem) h
  · exact orBreak_cost (by split <;> simp) (fun _ _ => hitem) h
  · refine orBreak_cost (by simp) (fun st rest h => ?_) h
    obtain ⟨hlen, rfl⟩ := readChunk_length h
    simp only [List.length_cons]; omega

/-- What is skipped is skipped whatever follows it, given enough steps. -/
theorem skip_local {fuel : Nat} {stack : List Frame} {bs rest : Bytes}
    (h : skip fuel stack bs = some ((), rest)) :
    ∃ taken, bs = taken ++ rest ∧ ∀ more fuel', stack.length + 2 * taken.length ≤ fuel' →
      skip fuel' stack (taken ++ more) = some ((), more) := by
  induction fuel generalizing stack bs with
  | zero =>
    cases stack with
    | nil => cases h; exact ⟨[], rfl, fun more fuel' _ => by cases fuel' <;> rfl⟩
    | cons => cases h
  | succ fuel ih =>
    cases stack with
    | nil => cases h; exact ⟨[], rfl, fun more fuel' _ => by cases fuel' <;> rfl⟩
    | cons fr stack =>
      obtain ⟨⟨st, mid⟩, hstep, hskip⟩ := Option.bind_eq_some_iff.mp h
      obtain ⟨t₂, rfl, h₂⟩ := ih hskip
      obtain ⟨t₁, rfl, h₁⟩ := step_local _ _ _ _ hstep
      refine ⟨t₁ ++ t₂, (List.append_assoc ..).symm, fun more fuel' hfuel => ?_⟩
      have hcost := step_cost (h₁ [])
      cases fuel' with
      | zero => simp at hfuel
      | succ fuel' =>
        simp only [List.length_append, List.length_nil, List.length_cons] at hcost hfuel
        simp only [skip, Reader.bind, List.append_assoc, h₁, Option.bind_some]
        have hst : st.length + 2 * t₂.length ≤ fuel' := by omega
        exact h₂ more fuel' hst

theorem skipItem_local : skipItem.Local := by
  intro bs a rest h
  obtain ⟨taken, rfl, hmore⟩ := skip_local h
  refine ⟨taken, rfl, fun more => hmore more _ ?_⟩
  simp only [List.length_append, List.length_cons, List.length_nil]; omega

/-- Skipping succeeds exactly on a complete item, and takes it. -/
theorem skipItem_eq_some_iff {bs rest : Bytes} :
    skipItem bs = some ((), rest) ↔ ∃ item, Item item ∧ bs = item ++ rest := by
  constructor
  · intro h
    obtain ⟨taken, rfl, hmore⟩ := skipItem_local _ _ _ h
    exact ⟨taken, by simpa [Item] using hmore [], rfl⟩
  · rintro ⟨item, hitem, rfl⟩
    obtain ⟨taken, htaken, hmore⟩ := skipItem_local _ _ _ hitem
    rw [List.append_nil] at htaken
    exact htaken ▸ hmore rest

/-- A head without a container behind it is an item, with its bytes. -/
theorem skipItem_of_content {bs mid rest bytes : Bytes} {h : Head} {n : Nat}
    (hr : readHead bs = some (h, mid)) (hc : h.content = some (n, []))
    (hb : readBytes n mid = some (bytes, rest)) : skipItem bs = some ((), rest) := by
  have hlen := readHead_length hr
  obtain ⟨fuel, hfuel⟩ : ∃ fuel, 2 * bs.length = fuel + 1 := ⟨2 * bs.length - 1, by omega⟩
  have hfirst : skip (fuel + 2) [.items 1] bs = skip (fuel + 1) [.items 0] rest := by
    simp [skip, step, readItem, Reader.bind, hr, hc, hb]
  rw [skipItem, hfuel, hfirst]
  simp [skip, step, Reader.bind]

theorem skipItem_of_readInt {bs rest : Bytes} {n : Int} (h : readInt bs = some (n, rest)) :
    skipItem bs = some ((), rest) := by
  obtain ⟨⟨hd, mid⟩, hr, hm⟩ := Option.bind_eq_some_iff.mp h
  have hcontent : hd.content = some (0, []) ∧ mid = rest := by
    simp only [Head.content]
    grind
  have hbytes : readBytes 0 mid = some ([], rest) := by simp [readBytes, hcontent.2]
  exact skipItem_of_content hr hcontent.1 hbytes

/-! ## Sequences of items -/

/-- So many complete items. -/
def Items (n : Nat) (bs : Bytes) : Prop :=
  ∃ items : List Bytes, items.length = n ∧ (∀ i ∈ items, Item i) ∧ bs = items.flatten

def skipItems : Nat → Reader Unit
  | 0 => fun bs => some ((), bs)
  | n + 1 => skipItem.bind fun _ => skipItems n

theorem Items.nil : Items 0 [] := ⟨[], rfl, by simp, rfl⟩

theorem Items.cons {n : Nat} {item bs : Bytes} (hi : Item item) (h : Items n bs) :
    Items (n + 1) (item ++ bs) := by
  obtain ⟨items, hlen, hitems, rfl⟩ := h
  exact ⟨item :: items, by simp [hlen], by simpa using ⟨hi, hitems⟩, by simp⟩

theorem skipItems_eq_some_iff {n : Nat} {bs rest : Bytes} :
    skipItems n bs = some ((), rest) ↔ ∃ body, Items n body ∧ bs = body ++ rest := by
  induction n generalizing bs with
  | zero =>
    constructor
    · intro h
      cases h
      exact ⟨[], .nil, rfl⟩
    · rintro ⟨_, ⟨items, hlen, -, rfl⟩, rfl⟩
      rw [List.length_eq_zero_iff.mp hlen]
      rfl
  | succ n ih =>
    constructor
    · intro h
      obtain ⟨⟨⟨⟩, mid⟩, hitem, htail⟩ := Option.bind_eq_some_iff.mp h
      obtain ⟨item, hi, rfl⟩ := skipItem_eq_some_iff.mp hitem
      obtain ⟨body, hbody, rfl⟩ := ih.mp htail
      exact ⟨item ++ body, .cons hi hbody, (List.append_assoc ..).symm⟩
    · rintro ⟨_, ⟨items, hlen, hitems, rfl⟩, rfl⟩
      cases items with
      | nil => cases hlen
      | cons item items =>
        have hskip : skipItem (item ++ (items.flatten ++ rest)) =
            some ((), items.flatten ++ rest) :=
          skipItem_eq_some_iff.mpr ⟨item, hitems item (by simp), rfl⟩
        have htail := ih.mpr ⟨items.flatten,
          ⟨items, by simpa using hlen, fun i hi => hitems i (by simp [hi]), rfl⟩, rfl⟩
        simp only [skipItems, Reader.bind, List.flatten_cons, List.append_assoc, hskip,
          Option.bind_some]
        exact htail

/-! ## Nested items -/

/-- The containers of the stack end behind `bs`, in front of `rest`. -/
def Skips (stack : List Frame) (bs rest : Bytes) : Prop :=
  ∃ fuel, skip fuel stack bs = some ((), rest)

section

variable {a b : List Frame} {frame : Frame} {bs mid rest more : Bytes} {n : Nat}

theorem skips_nil : Skips [] bs rest ↔ bs = rest := by
  constructor
  · rintro ⟨_ | fuel, h⟩ <;> cases h <;> rfl
  · rintro rfl
    exact ⟨0, rfl⟩

theorem skips_cons : Skips (frame :: a) bs rest ↔
    ∃ stack mid, step (frame :: a) bs = some (stack, mid) ∧ Skips stack mid rest := by
  constructor
  · rintro ⟨_ | fuel, h⟩
    · cases h
    · obtain ⟨⟨stack, mid⟩, hstep, hskip⟩ := Option.bind_eq_some_iff.mp h
      exact ⟨stack, mid, hstep, fuel, hskip⟩
  · rintro ⟨stack, mid, hstep, fuel, hskip⟩
    exact ⟨fuel + 1, Option.bind_eq_some_iff.mpr ⟨(stack, mid), hstep, hskip⟩⟩

theorem readItem_append (a b : List Frame) (bs : Bytes) :
    readItem (a ++ b) bs = (readItem a bs).map fun x => (x.1 ++ b, x.2) := by
  simp only [readItem, Reader.bind]
  cases readHead bs with
  | none => rfl
  | some head =>
    cases hc : head.1.content with
    | none => simp [hc]
    | some content => simp [hc, Function.comp_def]

theorem readChunk_append (major : Nat) (a b : List Frame) (bs : Bytes) :
    readChunk major (a ++ b) bs = (readChunk major a bs).map fun x => (x.1 ++ b, x.2) := by
  simp only [readChunk, Reader.bind]
  cases readHead bs with
  | none => rfl
  | some head =>
    simp only [Option.bind_some]
    split
    · split <;> simp [Function.comp_def]
    · rfl

theorem orBreak_append (stack : Option (List Frame)) {read read' : Reader (List Frame)}
    (h : read' bs = (read bs).map fun x => (x.1 ++ b, x.2)) :
    orBreak (stack.map (· ++ b)) read' bs =
      (orBreak stack read bs).map fun x => (x.1 ++ b, x.2) := by
  simp only [orBreak]
  split
  · cases stack <;> rfl
  · exact h

/-- What a step does to the innermost container does not depend on the others. -/
theorem step_append (frame : Frame) (a b : List Frame) (bs : Bytes) :
    step (frame :: (a ++ b)) bs = (step (frame :: a) bs).map fun x => (x.1 ++ b, x.2) := by
  cases frame with
  | items n =>
    cases n with
    | zero => rfl
    | succ n => exact readItem_append (.items n :: a) b bs
  | untilBreak => exact orBreak_append (some a) (readItem_append (.untilBreak :: a) b bs)
  | pairs half =>
    have hread := readItem_append (.pairs (!half) :: a) b bs
    cases half
    · exact orBreak_append (some a) hread
    · exact orBreak_append none hread
  | chunks major => exact orBreak_append (some a) (readChunk_append major (.chunks major :: a) b bs)

theorem skips_append :
    Skips (a ++ b) bs rest ↔ ∃ mid, Skips a bs mid ∧ Skips b mid rest := by
  constructor
  · rintro ⟨fuel, h⟩
    induction fuel generalizing a bs with
    | zero =>
      cases a with
      | nil => exact ⟨bs, skips_nil.mpr rfl, 0, h⟩
      | cons => cases h
    | succ fuel ih =>
      cases a with
      | nil => exact ⟨bs, skips_nil.mpr rfl, fuel + 1, h⟩
      | cons frame a =>
        obtain ⟨⟨stack, next⟩, hstep, hskip⟩ := Option.bind_eq_some_iff.mp h
        rw [List.append_eq, step_append] at hstep
        obtain ⟨⟨inner, _⟩, hinner, heq⟩ := Option.map_eq_some_iff.mp hstep
        cases heq
        obtain ⟨mid, hfirst, hsecond⟩ := ih hskip
        exact ⟨mid, skips_cons.mpr ⟨inner, _, hinner, hfirst⟩, hsecond⟩
  · rintro ⟨mid, ⟨fuel, h⟩, hb⟩
    induction fuel generalizing a bs with
    | zero =>
      cases a with
      | nil => cases h; exact hb
      | cons => cases h
    | succ fuel ih =>
      cases a with
      | nil => cases h; exact hb
      | cons frame a =>
        obtain ⟨⟨stack, next⟩, hstep, hskip⟩ := Option.bind_eq_some_iff.mp h
        refine skips_cons.mpr ⟨stack ++ b, next, ?_, ih hskip⟩
        rw [List.append_eq, step_append, hstep]
        rfl

theorem Skips.append (h : Skips a bs rest) (more : Bytes) :
    Skips a (bs ++ more) (rest ++ more) := by
  obtain ⟨fuel, h⟩ := h
  obtain ⟨taken, rfl, htaken⟩ := skip_local h
  refine ⟨a.length + 2 * taken.length, ?_⟩
  rw [List.append_assoc]
  exact htaken (rest ++ more) _ (Nat.le_refl _)

theorem item_iff_skips : Item bs ↔ Skips [.items 1] bs [] := by
  constructor
  · exact fun h => ⟨_, h⟩
  · rintro ⟨fuel, h⟩
    obtain ⟨taken, htaken, hall⟩ := skip_local h
    rw [List.append_nil] at htaken
    subst htaken
    have hskip := hall [] (2 * bs.length + 1) (by simp; omega)
    rwa [List.append_nil] at hskip

theorem skips_items_zero : Skips [.items 0] bs rest ↔ bs = rest := by
  rw [skips_cons]
  constructor
  · rintro ⟨stack, mid, ⟨⟩, h⟩
    exact skips_nil.mp h
  · rintro rfl
    exact ⟨[], bs, rfl, skips_nil.mpr rfl⟩

/-- An item is one of the items to come. -/
theorem Item.skips_succ (h : Item bs) (n : Nat) (rest : Bytes) {after : Bytes}
    (hrest : Skips [.items n] rest after) : Skips [.items (n + 1)] (bs ++ rest) after := by
  obtain ⟨stack, mid, hstep, hskip⟩ := skips_cons.mp (item_iff_skips.mp h)
  have hread : readItem ([] ++ [.items 0]) bs = some (stack, mid) := hstep
  rw [readItem_append] at hread
  obtain ⟨⟨frames, mid⟩, hframes, heq⟩ := Option.map_eq_some_iff.mp hread
  cases heq
  obtain ⟨last, hend, hzero⟩ := skips_append.mp hskip
  rw [skips_items_zero.mp hzero] at hend
  refine skips_cons.mpr ⟨frames ++ [.items n], mid ++ rest, ?_, ?_⟩
  · have happend := (readItem_local []).append hframes rest
    have hnext := readItem_append [] [.items n] (bs ++ rest)
    rw [happend] at hnext
    exact hnext
  · exact skips_append.mpr ⟨rest, hend.append rest, hrest⟩

theorem Items.skips (h : Items n bs) : Skips [.items n] bs [] := by
  obtain ⟨items, rfl, hitems, rfl⟩ := h
  induction items with
  | nil => exact skips_items_zero.mpr rfl
  | cons item items ih =>
    obtain ⟨hitem, hrest⟩ := List.forall_mem_cons.mp hitems
    exact hitem.skips_succ _ _ (ih hrest)

/-- A head with the items of the container that it opens is an item. -/
theorem item_of_container {h : Head} {body : Bytes} (hr : readHead bs = some (h, body))
    (hc : h.content = some (0, [.items n])) (hbody : Items n body) : Item bs := by
  refine item_iff_skips.mpr (skips_cons.mpr ⟨[.items n, .items 0], body, ?_, ?_⟩)
  · simp [step, readItem, Reader.bind, hr, hc, readBytes]
  · exact skips_append.mpr ⟨[], hbody.skips, skips_items_zero.mpr rfl⟩

end

/-! ## Encoded items -/

/-- A byte string that is one map, with its entries. -/
def MapItem (bs : Bytes) : Prop := Item bs ∧ (readHead bs).map (·.1.major) = some 5

instance (bs : Bytes) : Decidable (MapItem bs) := inferInstanceAs (Decidable (_ ∧ _))

theorem Items.append {m n : Nat} {x y : Bytes} (hx : Items m x) (hy : Items n y) :
    Items (m + n) (x ++ y) := by
  obtain ⟨xs, rfl, hxs, rfl⟩ := hx
  obtain ⟨ys, rfl, hys, rfl⟩ := hy
  refine ⟨xs ++ ys, List.length_append, ?_, List.flatten_append.symm⟩
  intro item hitem
  exact (List.mem_append.mp hitem).elim (hxs item) (hys item)

theorem item_encodeInt {n : Int} (hlow : -2 ^ 64 ≤ n) (hhigh : n < 2 ^ 64) :
    Item (encodeInt n) := by
  have hread := readInt_encodeInt hlow hhigh []
  rw [List.append_nil] at hread
  exact skipItem_of_readInt hread

theorem item_string {major : Nat} (hmajor : major = 2 ∨ major = 3) {bs : Bytes}
    (hlen : bs.length < 2 ^ 64) : Item (encodeHead major bs.length ++ bs) := by
  obtain ⟨info, hread, -⟩ := readHead_encodeHead (by omega : major < 8) hlen bs
  have hcontent : (⟨major, info, some bs.length⟩ : Head).content = some (bs.length, []) := by
    obtain rfl | rfl := hmajor <;> rfl
  have hbytes := readBytes_append (rfl : bs.length = bs.length) []
  rw [List.append_nil] at hbytes
  exact skipItem_of_content hread hcontent hbytes

/-- A simple value or a float of the given width. -/
theorem item_special {k n : Nat} (hk : 0 < k) (hk4 : k < 4) (hn : n < 256 ^ 2 ^ k) :
    Item (UInt8.ofNat (32 * 7 + (24 + k)) :: toBigEndian (2 ^ k) n) := by
  have hread := readHead_long (by decide : 7 < 8) hk4 hn []
  rw [List.append_nil] at hread
  have hcontent : (⟨7, 24 + k, some n⟩ : Head).content = some (0, []) :=
    if_neg fun h => by simp only at h; omega
  exact skipItem_of_content hread hcontent rfl

theorem item_array {n : Nat} (hn : n < 2 ^ 64) {body : Bytes} (hbody : Items n body) :
    Item (encodeHead 4 n ++ body) := by
  obtain ⟨info, hread, -⟩ := readHead_encodeHead (by decide : 4 < 8) hn body
  exact item_of_container hread rfl hbody

theorem mapItem_map {n : Nat} (hn : n < 2 ^ 64) {body : Bytes} (hbody : Items (2 * n) body) :
    MapItem (encodeHead 5 n ++ body) := by
  obtain ⟨info, hread, -⟩ := readHead_encodeHead (by decide : 5 < 8) hn body
  refine ⟨item_of_container hread rfl hbody, ?_⟩
  rw [hread]
  rfl

end Cbor
