import Mathlib.Data.List.Basic

/-!
# Attributes of route netlink messages

Little-endian numbers in byte lists, writes into a byte buffer, and the
attribute format: a two-byte length, a two-byte type, the payload, and padding
up to a multiple of four. `parse` reads a list of attributes as a receiver does.

1. `le16At_le16`, `le32At_le32`: numbers read back as they were written.
2. `poke_append`: a write replaces the segment it falls on.
3. `parse_rtaBytes`: a written attribute is the first one that is parsed.
-/

namespace Rtattr

/-! ## Numbers in memory -/

def le16 (n : Nat) : List UInt8 := [(n % 256).toUInt8, (n / 256 % 256).toUInt8]

def le32 (n : Nat) : List UInt8 :=
  [(n % 256).toUInt8, (n / 256 % 256).toUInt8, (n / 65536 % 256).toUInt8,
    (n / 16777216 % 256).toUInt8]

def byteAt (bs : List UInt8) (off : Nat) : Nat := (bs.getD off 0).toNat

def le16At (bs : List UInt8) (off : Nat) : Nat := byteAt bs off + 256 * byteAt bs (off + 1)

def le32At (bs : List UInt8) (off : Nat) : Nat :=
  byteAt bs off + 256 * byteAt bs (off + 1) + 65536 * byteAt bs (off + 2) +
    16777216 * byteAt bs (off + 3)

@[simp] theorem length_le16 (n : Nat) : (le16 n).length = 2 := rfl

@[simp] theorem length_le32 (n : Nat) : (le32 n).length = 4 := rfl

theorem toNat_mod_toUInt8 (n : Nat) : (n % 256).toUInt8.toNat = n % 256 := by
  simp [Nat.toUInt8, UInt8.toNat, UInt8.ofNat]

theorem byteAt_append_right (pre bs : List UInt8) (i : Nat) :
    byteAt (pre ++ bs) (pre.length + i) = byteAt bs i := by
  unfold byteAt
  rw [List.getD_eq_getElem?_getD, List.getElem?_append_right (Nat.le_add_right _ _),
    Nat.add_sub_cancel_left, ← List.getD_eq_getElem?_getD]

/-- A two-byte number is read where it was written. -/
theorem le16At_le16 (pre rest : List UInt8) {n : Nat} (hn : n < 65536) :
    le16At (pre ++ (le16 n ++ rest)) pre.length = n := by
  have h0 := byteAt_append_right pre (le16 n ++ rest) 0
  have h1 := byteAt_append_right pre (le16 n ++ rest) 1
  simp only [Nat.add_zero] at h0
  have e0 : byteAt (le16 n ++ rest) 0 = n % 256 := toNat_mod_toUInt8 n
  have e1 : byteAt (le16 n ++ rest) 1 = n / 256 % 256 := toNat_mod_toUInt8 (n / 256)
  unfold le16At
  omega

/-- A four-byte number is read where it was written. -/
theorem le32At_le32 (pre rest : List UInt8) {n : Nat} (hn : n < 4294967296) :
    le32At (pre ++ (le32 n ++ rest)) pre.length = n := by
  have h0 := byteAt_append_right pre (le32 n ++ rest) 0
  have h1 := byteAt_append_right pre (le32 n ++ rest) 1
  have h2 := byteAt_append_right pre (le32 n ++ rest) 2
  have h3 := byteAt_append_right pre (le32 n ++ rest) 3
  simp only [Nat.add_zero] at h0
  have e0 : byteAt (le32 n ++ rest) 0 = n % 256 := toNat_mod_toUInt8 n
  have e1 : byteAt (le32 n ++ rest) 1 = n / 256 % 256 := toNat_mod_toUInt8 (n / 256)
  have e2 : byteAt (le32 n ++ rest) 2 = n / 65536 % 256 := toNat_mod_toUInt8 (n / 65536)
  have e3 : byteAt (le32 n ++ rest) 3 = n / 16777216 % 256 := toNat_mod_toUInt8 (n / 16777216)
  unfold le32At
  omega

/-! ## Writes into a buffer -/

/-- Copy `bs` into the buffer at `off`; `none` when it does not fit. -/
def poke (off : Nat) (bs buf : List UInt8) : Option (List UInt8) :=
  if off + bs.length ≤ buf.length then
    some (buf.take off ++ bs ++ buf.drop (off + bs.length))
  else
    none

/-- A write that falls on a segment of its own length replaces the segment. -/
theorem poke_append {off : Nat} {pre old new post : List UInt8} (hoff : off = pre.length)
    (hlen : old.length = new.length) :
    poke off new (pre ++ (old ++ post)) = some (pre ++ (new ++ post)) := by
  have hfit : off + new.length ≤ (pre ++ (old ++ post)).length := by
    simp only [List.length_append]
    omega
  rw [poke, if_pos hfit, hoff, ← hlen, List.take_left, ← List.drop_drop, List.drop_left,
    List.drop_left, List.append_assoc]

theorem length_of_poke {off : Nat} {bs buf buf' : List UInt8} (h : poke off bs buf = some buf') :
    buf'.length = buf.length := by
  unfold poke at h
  split at h
  · cases h
    simp only [List.length_append, List.length_take, List.length_drop]
    omega
  · exact nomatch h

/-! ## Attributes -/

/-- `NLMSG_ALIGN` and `RTA_ALIGN`: up to a multiple of four. -/
def align4 (n : Nat) : Nat := (n + 3) / 4 * 4

/-- `RTA_LENGTH`: the payload behind the 4-byte attribute header. -/
def rtaLength (n : Nat) : Nat := n + 4

/-- One attribute as it lies in a message: header, payload, padding. -/
def rtaBytes (type : Nat) (payload : List UInt8) : List UInt8 :=
  le16 (rtaLength payload.length) ++ le16 type ++ payload ++
    List.replicate (align4 payload.length - payload.length) 0

theorem length_rtaBytes (type : Nat) (payload : List UInt8) :
    (rtaBytes type payload).length = 4 + align4 payload.length := by
  simp only [rtaBytes, List.length_append, length_le16, List.length_replicate, align4]
  omega

/-- The attributes in a byte string: type and payload, up to the first header
that does not fit. -/
def parse : Nat → List UInt8 → List (Nat × List UInt8)
  | 0, _ => []
  | fuel + 1, bs =>
    if 4 ≤ le16At bs 0 ∧ le16At bs 0 ≤ bs.length then
      (le16At bs 2, (bs.take (le16At bs 0)).drop 4) :: parse fuel (bs.drop (align4 (le16At bs 0)))
    else
      []

/-- The payload of the last attribute of a type. -/
def find (type : Nat) (bs : List UInt8) : Option (List UInt8) :=
  ((parse bs.length bs).reverse.find? (·.1 = type)).map (·.2)

@[simp] theorem parse_nil (fuel : Nat) : parse fuel [] = [] := by
  cases fuel with
  | zero => rfl
  | succ n => rfl

/-- What a receiver reads at a written attribute: its length, its type, its
payload, and where the next one starts. -/
theorem rtaBytes_read {type : Nat} {payload : List UInt8} (htype : type < 65536)
    (hlen : payload.length < 65500) (rest : List UInt8) :
    let bs := rtaBytes type payload ++ rest
    le16At bs 0 = rtaLength payload.length ∧ le16At bs 2 = type ∧
      (bs.take (rtaLength payload.length)).drop 4 = payload ∧
      bs.drop (align4 (rtaLength payload.length)) = rest ∧
      align4 (rtaLength payload.length) ≤ bs.length := by
  intro bs
  have hlen0 : le16At bs 0 = rtaLength payload.length := by
    have := le16At_le16 [] (le16 type ++ payload ++
      List.replicate (align4 payload.length - payload.length) 0 ++ rest)
      (show rtaLength payload.length < 65536 by unfold rtaLength; omega)
    simpa [bs, rtaBytes] using this
  have htype2 : le16At bs 2 = type := by
    have := le16At_le16 (le16 (rtaLength payload.length)) (payload ++
      List.replicate (align4 payload.length - payload.length) 0 ++ rest) htype
    simpa [bs, rtaBytes] using this
  have hpay : (bs.take (rtaLength payload.length)).drop 4 = payload := by
    have h4 : (le16 (rtaLength payload.length) ++ le16 type).length = 4 := rfl
    have hsplit : bs = (le16 (rtaLength payload.length) ++ le16 type) ++ (payload ++
        (List.replicate (align4 payload.length - payload.length) 0 ++ rest)) := by
      simp [bs, rtaBytes]
    rw [hsplit, List.drop_take, ← h4, List.drop_left, h4]
    simp [rtaLength]
  have hend : align4 (rtaLength payload.length) = (rtaBytes type payload).length := by
    rw [length_rtaBytes]
    unfold align4 rtaLength
    omega
  refine ⟨hlen0, htype2, hpay, ?_, ?_⟩
  · rw [hend, List.drop_left]
  · rw [hend, List.length_append]
    exact Nat.le_add_right _ _

theorem le_align4 (n : Nat) : n ≤ align4 n := by
  unfold align4
  omega

/-- A written attribute is parsed first, and then what follows it. -/
theorem parse_rtaBytes {type : Nat} {payload : List UInt8} (htype : type < 65536)
    (hlen : payload.length < 65500) (fuel : Nat) (rest : List UInt8) :
    parse (fuel + 1) (rtaBytes type payload ++ rest) = (type, payload) :: parse fuel rest := by
  obtain ⟨hlen0, htype2, hpay, hrest, hfit⟩ := rtaBytes_read htype hlen rest
  rw [parse, hlen0, htype2, hpay, hrest,
    if_pos ⟨Nat.le_add_left _ _, Nat.le_trans (le_align4 _) hfit⟩]

/-- The only attribute is found under its type. -/
theorem find_single (type : Nat) {payload : List UInt8} (htype : type < 65536)
    (hlen : payload.length < 65500) : find type (rtaBytes type payload) = some payload := by
  have hne : ∃ n, (rtaBytes type payload).length = n + 1 :=
    ⟨3 + align4 payload.length, by rw [length_rtaBytes]; omega⟩
  obtain ⟨n, hn⟩ := hne
  have hparse := parse_rtaBytes htype hlen n []
  rw [List.append_nil] at hparse
  simp [find, hn, hparse]

/-- Of two attributes of different types each is found under its own. -/
theorem find_pair (type₁ type₂ : Nat) {payload₁ payload₂ : List UInt8} (h₁ : type₁ < 65536)
    (h₂ : type₂ < 65536) (hne : type₁ ≠ type₂) (hl₁ : payload₁.length < 65500)
    (hl₂ : payload₂.length < 65500) :
    find type₁ (rtaBytes type₁ payload₁ ++ rtaBytes type₂ payload₂) = some payload₁ ∧
    find type₂ (rtaBytes type₁ payload₁ ++ rtaBytes type₂ payload₂) = some payload₂ := by
  have hlen : ∃ n, (rtaBytes type₁ payload₁ ++ rtaBytes type₂ payload₂).length = n + 1 + 1 :=
    ⟨6 + align4 payload₁.length + align4 payload₂.length, by
      rw [List.length_append, length_rtaBytes, length_rtaBytes]; omega⟩
  obtain ⟨n, hn⟩ := hlen
  have hparse := parse_rtaBytes h₂ hl₂ n []
  rw [List.append_nil] at hparse
  constructor
  · simp [find, hn, parse_rtaBytes h₁ hl₁, hparse, hne.symm]
  · simp [find, hn, parse_rtaBytes h₁ hl₁, hparse]

/-! ## Attributes that fill a region -/

/-- The attributes of a region at the offset `off`, read with `RTA_OK` and
`RTA_NEXT`; `none` unless each starts on a multiple of four and has room for its
header, and the last one ends, with its padding, where the region ends. -/
def tileFrom : Nat → Nat → List UInt8 → Option (List (Nat × List UInt8))
  | 0, _, bs => if bs = [] then some [] else none
  | fuel + 1, off, bs =>
    if bs = [] then some []
    else if off % 4 = 0 ∧ 4 ≤ le16At bs 0 ∧ align4 (le16At bs 0) ≤ bs.length then
      (tileFrom fuel (off + align4 (le16At bs 0)) (bs.drop (align4 (le16At bs 0)))).map
        ((le16At bs 2, (bs.take (le16At bs 0)).drop 4) :: ·)
    else none

def tile (off : Nat) (bs : List UInt8) : Option (List (Nat × List UInt8)) :=
  tileFrom bs.length off bs

/-- Every attribute has at least four bytes, so fuel beyond the length is idle. -/
theorem tileFrom_eq {fuel off : Nat} {bs : List UInt8} (h : bs.length ≤ fuel) :
    tileFrom fuel off bs = tile off bs := by
  have hmore : ∀ fuel fuel' off (bs : List UInt8), bs.length ≤ fuel → bs.length ≤ fuel' →
      tileFrom fuel off bs = tileFrom fuel' off bs := by
    intro fuel
    induction fuel with
    | zero =>
      intro fuel' off bs h _
      obtain rfl := List.length_eq_zero_iff.mp (Nat.le_zero.mp h)
      cases fuel' <;> rfl
    | succ fuel ih =>
      intro fuel' off bs h h'
      cases fuel' with
      | zero =>
        obtain rfl := List.length_eq_zero_iff.mp (Nat.le_zero.mp h')
        rfl
      | succ fuel' =>
        simp only [tileFrom]
        split
        · rfl
        · split
          · rename_i hok
            have hdrop := List.length_drop (l := bs) (i := align4 (le16At bs 0))
            have := le_align4 (le16At bs 0)
            rw [ih fuel' _ (bs.drop (align4 (le16At bs 0))) (by omega) (by omega)]
          · rfl
  exact hmore fuel bs.length off bs h (Nat.le_refl _)

@[simp] theorem tile_nil (off : Nat) : tile off [] = some [] := rfl

/-- A written attribute is read first, and the region goes on behind it. -/
theorem tile_rtaBytes {off type : Nat} {payload : List UInt8} (hoff : off % 4 = 0)
    (htype : type < 65536) (hlen : payload.length < 65500) (rest : List UInt8) :
    tile off (rtaBytes type payload ++ rest) =
      (tile (off + align4 (rtaLength payload.length)) rest).map ((type, payload) :: ·) := by
  obtain ⟨hlen0, htype2, hpay, hrest, hfit⟩ := rtaBytes_read htype hlen rest
  have hlength : (rtaBytes type payload ++ rest).length = 4 + align4 payload.length + rest.length := by
    rw [List.length_append, length_rtaBytes]
  obtain ⟨fuel, hfuel⟩ : ∃ fuel, (rtaBytes type payload ++ rest).length = fuel + 1 :=
    ⟨3 + align4 payload.length + rest.length, by omega⟩
  have hne : rtaBytes type payload ++ rest ≠ [] := fun h => by
    rw [h] at hfuel
    exact nomatch hfuel
  rw [tile, hfuel, tileFrom, if_neg hne, hlen0, htype2, hpay, hrest,
    if_pos ⟨hoff, Nat.le_add_left _ _, hfit⟩, tileFrom_eq (by omega)]

theorem align4_mod (n : Nat) : align4 n % 4 = 0 := Nat.mul_mod_left _ _

/-- Attributes written one behind the other. -/
def region (attrs : List (Nat × List UInt8)) : List UInt8 := attrs.flatMap fun a => rtaBytes a.1 a.2

@[simp] theorem region_nil : region [] = [] := rfl

@[simp] theorem region_cons (a : Nat × List UInt8) (attrs : List (Nat × List UInt8)) :
    region (a :: attrs) = rtaBytes a.1 a.2 ++ region attrs := rfl

/-- A region of written attributes is read as it was written. -/
theorem tile_region {off : Nat} {attrs : List (Nat × List UInt8)} (hoff : off % 4 = 0)
    (hattrs : ∀ a ∈ attrs, a.1 < 65536 ∧ a.2.length < 65500) : tile off (region attrs) = some attrs := by
  induction attrs generalizing off with
  | nil => rfl
  | cons a attrs ih =>
    obtain ⟨htype, hlen⟩ := hattrs a List.mem_cons_self
    have hmod := align4_mod (rtaLength a.2.length)
    rw [region_cons, tile_rtaBytes hoff htype hlen,
      ih (by omega) fun b hb => hattrs b (List.mem_cons_of_mem _ hb)]
    rfl

end Rtattr
