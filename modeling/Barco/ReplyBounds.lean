import Barco.Netlink

/-!
# What the receive loop looks at

`NLMSG_OK` and `NLMSG_NEXT` mix the signed `len` with unsigned lengths of the message. The
loop of `nl_send_recv` is stated here with that arithmetic, and with the bytes that each
round inspects.

1. `Tracks`: the position is exact, so neither macro wraps.
2. `reads_received_iff`: the loop keeps to the bytes received exactly when no error message
   for the request starts within the last 19 of them.
3. `short_error_read`: an error message without its code.
-/

namespace Barco

open Rtattr

/-! ## The macros -/

/-- Where the loop stands: the offset of `resp` and the `int` that `len` is. -/
structure ReplyPos where
  off : Nat
  len : Int

/-- An `int` as an `unsigned`. -/
def toUnsigned (n : Int) : Nat := (n % 4294967296).toNat

/-- An `unsigned` as an `int`. -/
def toSigned (n : Nat) : Int := if n < 2147483648 then n else n - 4294967296

/-- `NLMSG_ALIGN`, in 32 bits. -/
def nlmsgAlign (n : Nat) : Nat := (n + 3) % 4294967296 / 4 * 4

/-- `NLMSG_OK`: the last comparison is unsigned. -/
def NlmsgOk (mlen : Nat) (len : Int) : Prop := len ≥ 16 ∧ mlen ≥ 16 ∧ mlen ≤ toUnsigned len

instance (mlen : Nat) (len : Int) : Decidable (NlmsgOk mlen len) :=
  inferInstanceAs (Decidable (_ ∧ _))

/-- `NLMSG_NEXT`: the subtraction is unsigned. -/
def nlmsgNext (mlen : Nat) (p : ReplyPos) : ReplyPos :=
  ⟨p.off + nlmsgAlign mlen,
    toSigned ((toUnsigned p.len + (4294967296 - nlmsgAlign mlen)) % 4294967296)⟩

/-! ## A round -/

/-- One round of the loop: the result, or where the next round stands. -/
def replyRound (buf : List UInt8) (seq type : Nat) (p : ReplyPos) : Except Int ReplyPos :=
  if NlmsgOk (le32At buf p.off) p.len then
    if le32At buf (p.off + 8) ≠ seq then
      .ok (nlmsgNext (le32At buf p.off) p)
    else if le16At buf (p.off + 4) = NLMSG_ERROR then
      .error (if le32At buf (p.off + 16) ≠ 0 then -1 else 0)
    else if le16At buf (p.off + 4) = type ∨ le16At buf (p.off + 4) = NLMSG_DONE then
      .error 0
    else
      .ok (nlmsgNext (le32At buf p.off) p)
  else
    .error (-1)

/-- The offsets of the bytes that a round looks at: the length unless `len` is too small, the
sequence number, the type, and the code of an error message. -/
def replyLooks (buf : List UInt8) (seq : Nat) (p : ReplyPos) : List Nat :=
  if p.len ≥ 16 then
    List.range' p.off 4 ++
      if NlmsgOk (le32At buf p.off) p.len then
        List.range' (p.off + 8) 4 ++
          if le32At buf (p.off + 8) = seq then
            List.range' (p.off + 4) 2 ++
              if le16At buf (p.off + 4) = NLMSG_ERROR then List.range' (p.off + 16) 4 else []
          else []
      else []
  else []

/-- The positions of the loop on a buffer of which `len` bytes were received. -/
inductive Arrives (buf : List UInt8) (seq type len : Nat) : ReplyPos → Prop
  | start : Arrives buf seq type len ⟨0, len⟩
  | next {p q : ReplyPos} : Arrives buf seq type len p → replyRound buf seq type p = .ok q →
      Arrives buf seq type len q

/-- What `recvmsg` can put into the buffer. -/
abbrev Received : Type := {bs : List UInt8 // bs.length ≤ 4096}

/-- The loop keeps to what was received, whatever lies behind it in memory. -/
structure ReadsReceived (data : Received) (seq type : Nat) : Prop where
  ends : ∀ rest, ∃ p, Arrives (data.1 ++ rest) seq type data.1.length p ∧
    replyRound (data.1 ++ rest) seq type p =
      .error (replyScan (data.1 ++ rest) seq type 4096 0 data.1.length)
  exact : ∀ rest p, Arrives (data.1 ++ rest) seq type data.1.length p →
    p.len = data.1.length - p.off ∧ -3 ≤ p.len
  inside : ∀ rest p, Arrives (data.1 ++ rest) seq type data.1.length p →
    ∀ i ∈ replyLooks (data.1 ++ rest) seq p, i < data.1.length
  blind : ∀ rest rest', replyScan (data.1 ++ rest) seq type 4096 0 data.1.length =
    replyScan (data.1 ++ rest') seq type 4096 0 data.1.length

/-! ## The messages of the data -/

/-- A message starts at the offset: a header, and a length that fits. -/
def HeaderAt (data : List UInt8) (off : Nat) : Prop :=
  off + 16 ≤ data.length ∧ 16 ≤ le32At data off ∧ off + le32At data off ≤ data.length

/-- The message at the offset is an error for the request. -/
def ErrorAt (data : List UInt8) (seq off : Nat) : Prop :=
  le32At data (off + 8) = seq ∧ le16At data (off + 4) = NLMSG_ERROR

/-- It ends the loop. -/
def DecidesAt (data : List UInt8) (seq type off : Nat) : Prop :=
  le32At data (off + 8) = seq ∧ (le16At data (off + 4) = NLMSG_ERROR ∨
    le16At data (off + 4) = type ∨ le16At data (off + 4) = NLMSG_DONE)

instance (data : List UInt8) (off : Nat) : Decidable (HeaderAt data off) :=
  inferInstanceAs (Decidable (_ ∧ _))

instance (data : List UInt8) (seq off : Nat) : Decidable (ErrorAt data seq off) :=
  inferInstanceAs (Decidable (_ ∧ _))

instance (data : List UInt8) (seq type off : Nat) : Decidable (DecidesAt data seq type off) :=
  inferInstanceAs (Decidable (_ ∧ _))

/-- The offsets behind messages that do not end the loop. -/
inductive Passed (data : List UInt8) (seq type : Nat) : Nat → Prop
  | start : Passed data seq type 0
  | next {off : Nat} : Passed data seq type off → HeaderAt data off →
      ¬ DecidesAt data seq type off → Passed data seq type (off + align4 (le32At data off))

/-- The error message that the loop comes to, if any, was received with its code. -/
def CodeReceived (data : List UInt8) (seq type : Nat) : Prop :=
  ∀ off, Passed data seq type off → HeaderAt data off → ErrorAt data seq off →
    off + 20 ≤ data.length

/-- A round as the data decides it, up to the code of an error message. -/
def roundOn (data : List UInt8) (seq type code : Nat) (p : ReplyPos) : Except Int ReplyPos :=
  if HeaderAt data p.off then
    if ErrorAt data seq p.off then .error (if code ≠ 0 then -1 else 0)
    else if DecidesAt data seq type p.off then .error 0
    else .ok ⟨p.off + align4 (le32At data p.off), p.len - align4 (le32At data p.off)⟩
  else
    .error (-1)

/-! ## The arithmetic -/

section Arithmetic

variable {mlen : Nat} {len : Int}

theorem toUnsigned_eq (h₀ : 0 ≤ len) (h : len ≤ 4096) : (toUnsigned len : Int) = len := by
  have hmod : len % 4294967296 = len := Int.emod_eq_of_lt h₀ (by omega)
  rw [toUnsigned, hmod, Int.toNat_of_nonneg h₀]

theorem nlmsgAlign_eq (h : mlen ≤ 4096) : nlmsgAlign mlen = align4 mlen := by
  rw [nlmsgAlign, Nat.mod_eq_of_lt (by omega), align4]

/-- `NLMSG_OK` means what it says. -/
theorem nlmsgOk_iff (h : len ≤ 4096) :
    NlmsgOk mlen len ↔ 16 ≤ len ∧ 16 ≤ mlen ∧ (mlen : Int) ≤ len := by
  constructor
  · rintro ⟨hlen, hmlen, hfit⟩
    have := toUnsigned_eq (by omega) h
    exact ⟨hlen, hmlen, by omega⟩
  · rintro ⟨hlen, hmlen, hfit⟩
    have := toUnsigned_eq (by omega) h
    exact ⟨hlen, hmlen, by omega⟩

/-- `NLMSG_NEXT` takes the aligned length off; at most the padding is missing. -/
theorem nlmsgNext_eq {p : ReplyPos} (h : p.len ≤ 4096) (hlen : 16 ≤ p.len)
    (hmlen : (mlen : Int) ≤ p.len) :
    nlmsgNext mlen p = ⟨p.off + align4 mlen, p.len - align4 mlen⟩ := by
  have hu := toUnsigned_eq (by omega) h
  have halign : nlmsgAlign mlen = align4 mlen := nlmsgAlign_eq (by omega)
  have hle : (align4 mlen : Int) ≤ p.len + 3 := by
    unfold align4
    omega
  rw [nlmsgNext, halign]
  congr 1
  unfold toSigned
  split <;> omega

end Arithmetic

/-! ## A round on the data -/

section Rounds

variable {data rest : List UInt8} {seq type : Nat} {p q : ReplyPos}

theorem byteAt_received {i : Nat} (h : i < data.length) :
    byteAt (data ++ rest) i = byteAt data i := by
  simp only [byteAt, List.getD_eq_getElem?_getD, List.getElem?_append_left h]

theorem le32At_received {off : Nat} (h : off + 4 ≤ data.length) :
    le32At (data ++ rest) off = le32At data off := by
  simp only [le32At, byteAt_received (show off < data.length by omega),
    byteAt_received (show off + 1 < data.length by omega),
    byteAt_received (show off + 2 < data.length by omega),
    byteAt_received (show off + 3 < data.length by omega)]

theorem le16At_received {off : Nat} (h : off + 2 ≤ data.length) :
    le16At (data ++ rest) off = le16At data off := by
  simp only [le16At, byteAt_received (show off < data.length by omega),
    byteAt_received (show off + 1 < data.length by omega)]

/-- The loop stands where `len` says how much is left, on messages that it passed. -/
structure Tracks (data : List UInt8) (seq type : Nat) (p : ReplyPos) : Prop where
  exact : p.len = data.length - p.off
  low : -3 ≤ p.len
  passed : Passed data seq type p.off

theorem Tracks.start : Tracks data seq type ⟨0, data.length⟩ where
  exact := by simp
  low := Int.le_trans (by decide) (Int.natCast_nonneg _)
  passed := .start

theorem Tracks.ok_iff (hp : Tracks data seq type p) (hdata : data.length ≤ 4096) :
    NlmsgOk (le32At (data ++ rest) p.off) p.len ↔ HeaderAt data p.off := by
  have hexact := hp.exact
  rw [nlmsgOk_iff (by omega)]
  constructor
  · rintro ⟨hlen, hmlen, hfit⟩
    rw [le32At_received (by omega)] at hmlen hfit
    exact ⟨by omega, hmlen, by omega⟩
  · rintro ⟨hlen, hmlen, hfit⟩
    rw [le32At_received (by omega)]
    exact ⟨by omega, hmlen, by omega⟩

/-- Only the code of an error message may lie behind the data. -/
theorem Tracks.round (hp : Tracks data seq type p) (hdata : data.length ≤ 4096) :
    replyRound (data ++ rest) seq type p =
      roundOn data seq type (le32At (data ++ rest) (p.off + 16)) p := by
  have hok : NlmsgOk (le32At (data ++ rest) p.off) p.len ↔ HeaderAt data p.off := hp.ok_iff hdata
  by_cases hhead : HeaderAt data p.off
  · obtain ⟨hlen, hmlen, hfit⟩ := id hhead
    have hexact := hp.exact
    have hm : le32At (data ++ rest) p.off = le32At data p.off := le32At_received (by omega)
    have hs : le32At (data ++ rest) (p.off + 8) = le32At data (p.off + 8) :=
      le32At_received (by omega)
    have ht : le16At (data ++ rest) (p.off + 4) = le16At data (p.off + 4) :=
      le16At_received (by omega)
    have hnext : nlmsgNext (le32At data p.off) p =
        ⟨p.off + align4 (le32At data p.off), p.len - align4 (le32At data p.off)⟩ :=
      nlmsgNext_eq (by omega) (by omega) (by omega)
    rw [replyRound, if_pos (hok.mpr hhead), roundOn, if_pos hhead, hm, hs, ht, hnext]
    by_cases hseq : le32At data (p.off + 8) = seq
    · rw [if_neg (not_not.mpr hseq)]
      by_cases herr : le16At data (p.off + 4) = NLMSG_ERROR
      · have herrAt : ErrorAt data seq p.off := ⟨hseq, herr⟩
        rw [if_pos herr, if_pos herrAt]
      · have herrAt : ¬ ErrorAt data seq p.off := fun h => herr h.2
        rw [if_neg herr, if_neg herrAt]
        by_cases hend : le16At data (p.off + 4) = type ∨ le16At data (p.off + 4) = NLMSG_DONE
        · have hdec : DecidesAt data seq type p.off := ⟨hseq, .inr hend⟩
          rw [if_pos hend, if_pos hdec]
        · have hdec : ¬ DecidesAt data seq type p.off := fun h => h.2.elim herr hend
          rw [if_neg hend, if_neg hdec]
    · have herrAt : ¬ ErrorAt data seq p.off := fun h => hseq h.1
      have hdec : ¬ DecidesAt data seq type p.off := fun h => hseq h.1
      rw [if_pos hseq, if_neg herrAt, if_neg hdec]
  · rw [replyRound, if_neg (mt hok.mp hhead), roundOn, if_neg hhead]

/-- A round that goes on passed a message. -/
theorem roundOn_ok {code : Nat} (h : roundOn data seq type code p = .ok q) :
    HeaderAt data p.off ∧ ¬ DecidesAt data seq type p.off ∧
      q = ⟨p.off + align4 (le32At data p.off), p.len - align4 (le32At data p.off)⟩ := by
  by_cases hhead : HeaderAt data p.off
  · by_cases herr : ErrorAt data seq p.off
    · rw [roundOn, if_pos hhead, if_pos herr] at h
      cases h
    · by_cases hdec : DecidesAt data seq type p.off
      · rw [roundOn, if_pos hhead, if_neg herr, if_pos hdec] at h
        cases h
      · rw [roundOn, if_pos hhead, if_neg herr, if_neg hdec] at h
        cases h
        exact ⟨hhead, hdec, rfl⟩
  · rw [roundOn, if_neg hhead] at h
    cases h

theorem Tracks.next (hp : Tracks data seq type p) (hdata : data.length ≤ 4096)
    (h : replyRound (data ++ rest) seq type p = .ok q) :
    Tracks data seq type q ∧ q.len + 16 ≤ p.len := by
  rw [hp.round hdata] at h
  obtain ⟨hhead, hdec, rfl⟩ := roundOn_ok h
  obtain ⟨hlen, hmlen, hfit⟩ := id hhead
  have hexact := hp.exact
  have hle := le_align4 (le32At data p.off)
  have hpad : align4 (le32At data p.off) ≤ le32At data p.off + 3 := by
    unfold align4
    omega
  refine ⟨⟨?_, ?_, hp.passed.next hhead hdec⟩, ?_⟩
  · show p.len - _ = _
    push_cast
    omega
  · show -3 ≤ p.len - (align4 (le32At data p.off) : Int)
    omega
  · show p.len - (align4 (le32At data p.off) : Int) + 16 ≤ p.len
    omega

theorem tracks_of_arrives (hdata : data.length ≤ 4096)
    (h : Arrives (data ++ rest) seq type data.length p) : Tracks data seq type p := by
  induction h with
  | start => exact .start
  | next _ hround ih => exact (ih.next hdata hround).1

/-- The loop comes to every message behind those that do not end it. -/
theorem arrives_of_passed (hdata : data.length ≤ 4096) {off : Nat}
    (h : Passed data seq type off) :
    Arrives (data ++ rest) seq type data.length ⟨off, data.length - off⟩ := by
  induction h with
  | start =>
    have hzero : (data.length : Int) - (0 : Nat) = data.length := by simp
    rw [hzero]
    exact .start
  | @next off hpassed hhead hdec ih =>
    have herr : ¬ ErrorAt data seq off := fun h => hdec ⟨h.1, .inl h.2⟩
    refine ih.next ?_
    rw [(tracks_of_arrives hdata ih).round hdata, roundOn, if_pos hhead, if_neg herr, if_neg hdec]
    congr 2
    push_cast
    omega

/-! ## The whole loop -/

/-- `replyScan` takes the rounds one after the other. -/
theorem replyScan_round (hp : Tracks data seq type p) (hdata : data.length ≤ 4096)
    (fuel : Nat) :
    replyScan (data ++ rest) seq type (fuel + 1) p.off p.len =
      match replyRound (data ++ rest) seq type p with
      | .ok q => replyScan (data ++ rest) seq type fuel q.off q.len
      | .error r => r := by
  have hexact := hp.exact
  have hok : NlmsgOk (le32At (data ++ rest) p.off) p.len ↔ _ := nlmsgOk_iff (by omega)
  rw [replyScan, replyRound]
  by_cases h : NlmsgOk (le32At (data ++ rest) p.off) p.len
  · have hall := hok.mp h
    rw [if_pos hall, if_pos h, nlmsgNext_eq (by omega) hall.1 hall.2.2]
    split_ifs <;> rfl
  · rw [if_neg fun hall => h (hok.mpr hall), if_neg h]

/-- Every round but the last takes at least a header. -/
theorem loop_ends (hdata : data.length ≤ 4096) {fuel : Nat}
    (h : Arrives (data ++ rest) seq type data.length p) (hfuel : p.len < 16 * fuel) :
    ∃ q, Arrives (data ++ rest) seq type data.length q ∧ replyRound (data ++ rest) seq type q =
      .error (replyScan (data ++ rest) seq type fuel p.off p.len) := by
  induction fuel generalizing p with
  | zero =>
    have hp := tracks_of_arrives hdata h
    have hexact := hp.exact
    refine ⟨p, h, ?_⟩
    rw [hp.round hdata, roundOn, if_neg fun hhead => ?_]
    · rfl
    · have := hhead.1
      omega
  | succ fuel ih =>
    have hp := tracks_of_arrives hdata h
    rw [replyScan_round hp hdata]
    cases hround : replyRound (data ++ rest) seq type p with
    | error r => exact ⟨p, h, hround⟩
    | ok q =>
      have hq := (hp.next hdata hround).2
      exact ih (h.next hround) (by omega)

/-- With the code received, nothing of the rest is looked at. -/
theorem round_blind (hcode : CodeReceived data seq type) (hp : Tracks data seq type p)
    (hdata : data.length ≤ 4096) (rest rest' : List UInt8) :
    replyRound (data ++ rest) seq type p = replyRound (data ++ rest') seq type p := by
  rw [hp.round hdata, hp.round hdata, roundOn, roundOn]
  by_cases hhead : HeaderAt data p.off
  · by_cases herr : ErrorAt data seq p.off
    · have hroom := hcode p.off hp.passed hhead herr
      rw [le32At_received (by omega), le32At_received (by omega)]
    · rw [if_pos hhead, if_pos hhead, if_neg herr, if_neg herr]
  · rw [if_neg hhead, if_neg hhead]

theorem loop_blind (hcode : CodeReceived data seq type) (hp : Tracks data seq type p)
    (hdata : data.length ≤ 4096) (rest rest' : List UInt8) (fuel : Nat) :
    replyScan (data ++ rest) seq type fuel p.off p.len =
      replyScan (data ++ rest') seq type fuel p.off p.len := by
  induction fuel generalizing p with
  | zero => rfl
  | succ fuel ih =>
    rw [replyScan_round hp hdata, replyScan_round hp hdata, round_blind hcode hp hdata rest rest']
    cases hround : replyRound (data ++ rest') seq type p with
    | error r => rfl
    | ok q => exact ih (hp.next hdata hround).1

/-! ## The bytes of a round -/

theorem looks_inside (hcode : CodeReceived data seq type) (hp : Tracks data seq type p)
    (hdata : data.length ≤ 4096) {i : Nat} (hi : i ∈ replyLooks (data ++ rest) seq p) :
    i < data.length := by
  have hexact := hp.exact
  have hok : NlmsgOk (le32At (data ++ rest) p.off) p.len ↔ HeaderAt data p.off := hp.ok_iff hdata
  simp only [replyLooks] at hi
  split at hi
  · rcases List.mem_append.mp hi with hi | hi
    · have := List.mem_range'_1.mp hi
      omega
    split at hi
    · rename_i hok'
      have hhead := hok.mp hok'
      have hroom := hhead.1
      rcases List.mem_append.mp hi with hi | hi
      · have := List.mem_range'_1.mp hi
        omega
      split at hi
      · rename_i hseq
        rw [le32At_received (by omega)] at hseq
        rcases List.mem_append.mp hi with hi | hi
        · have := List.mem_range'_1.mp hi
          omega
        split at hi
        · rename_i herr
          rw [le16At_received (by omega)] at herr
          have := hcode p.off hp.passed hhead ⟨hseq, herr⟩
          have := List.mem_range'_1.mp hi
          omega
        · cases hi
      · cases hi
    · cases hi
  · cases hi

/-- The last byte of the code of an error message is looked at. -/
theorem code_looked (hp : Tracks data seq type p) (hdata : data.length ≤ 4096)
    (hhead : HeaderAt data p.off) (herr : ErrorAt data seq p.off) :
    p.off + 19 ∈ replyLooks (data ++ rest) seq p := by
  have hok : NlmsgOk (le32At (data ++ rest) p.off) p.len := (hp.ok_iff hdata).mpr hhead
  have hroom := hhead.1
  have hseq : le32At (data ++ rest) (p.off + 8) = seq := by
    rw [le32At_received (by omega)]
    exact herr.1
  have htype : le16At (data ++ rest) (p.off + 4) = NLMSG_ERROR := by
    rw [le16At_received (by omega)]
    exact herr.2
  have hcode : p.off + 19 ∈ List.range' (p.off + 16) 4 := List.mem_range'_1.mpr (by omega)
  rw [replyLooks, if_pos hok.1, if_pos hok, if_pos hseq, if_pos htype]
  exact List.mem_append_right _ (List.mem_append_right _ (List.mem_append_right _ hcode))

end Rounds

/-! ## The boundary -/

/-- The loop looks at nothing but what was received, exactly for the data on which the code
of the error message that it comes to was received too. -/
theorem reads_received_iff (data : Received) (seq type : Nat) :
    ReadsReceived data seq type ↔ CodeReceived data.1 seq type := by
  obtain ⟨data, hdata⟩ := data
  constructor
  · intro h off hpassed hhead herr
    have harrives : Arrives (data ++ []) seq type data.length _ := arrives_of_passed hdata hpassed
    have hp := tracks_of_arrives hdata harrives
    have := h.inside [] _ harrives _ (code_looked hp hdata hhead herr)
    exact this
  · intro hcode
    refine ⟨fun rest => ?_, fun rest p hp => ?_, fun rest p hp i hi => ?_, fun rest rest' => ?_⟩
    · exact loop_ends hdata .start (by show (data.length : Int) < _; omega)
    · have htracks := tracks_of_arrives hdata hp
      exact ⟨htracks.exact, htracks.low⟩
    · exact looks_inside hcode (tracks_of_arrives hdata hp) hdata hi
    · exact loop_blind hcode .start hdata rest rest' 4096

/-- A datagram of 16 bytes: an error message for request 1 without its code. -/
def shortError : Received :=
  ⟨le32 16 ++ (le16 NLMSG_ERROR ++ (le16 0 ++ (le32 1 ++ le32 0))), by decide⟩

/-- The result is what happens to lie behind it. -/
theorem short_error_read : ¬ ReadsReceived shortError 1 16 := by
  intro h
  exact absurd (h.blind [0, 0, 0, 0] [1, 0, 0, 0]) (by decide)

end Barco
