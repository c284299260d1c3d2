import Barco.NetKernel

/-!
# What the receive loop computes

`nl_send_recv` walks the bytes of one datagram. `replyMeaning` says the same of
the list of messages: the first one that is decisive for the request settles the
result. The walk is followed message by message; the offset and the remaining
length are those of the messages behind it, and the last one may lack its padding.

1. `replyScan_message`: one round of the loop.
2. `reply_meaning`: the loop computes the meaning of every datagram.
-/

namespace Barco

open Effect Prog Rtattr

/-! ## Messages -/

/-- A message of a datagram. An `NLMSG_ERROR` carries a whole `struct nlmsgerr`. -/
structure Reply where
  type : UInt16
  flags : UInt16
  seq : UInt32
  pid : UInt32
  payload : List UInt8
  full : type.toNat = NLMSG_ERROR → 20 ≤ payload.length

namespace Reply

/-- `nlmsg_len` -/
def len (m : Reply) : Nat := 16 + m.payload.length

def bytes (m : Reply) : List UInt8 :=
  le32 m.len ++ (le16 m.type.toNat ++ (le16 m.flags.toNat ++ (le32 m.seq.toNat ++
    (le32 m.pid.toNat ++ m.payload))))

/-- The message up to the next multiple of four. -/
def padded (m : Reply) : List UInt8 := m.bytes ++ zeros (align4 m.len - m.len)

/-- The `error` of an `NLMSG_ERROR`. -/
def code (m : Reply) : Nat := le32At m.payload 0

/-- The message settles the request with this sequence number and expected type. -/
def Decisive (seq : UInt32) (type : Nat) (m : Reply) : Prop :=
  m.seq = seq ∧ (m.type.toNat = NLMSG_ERROR ∨ m.type.toNat = type ∨ m.type.toNat = NLMSG_DONE)

instance (seq : UInt32) (type : Nat) (m : Reply) : Decidable (m.Decisive seq type) :=
  inferInstanceAs (Decidable (_ ∧ _))

/-- How a decisive message settles it. -/
def verdict (m : Reply) : Int := if m.type.toNat = NLMSG_ERROR ∧ m.code ≠ 0 then -1 else 0

end Reply

/-- The messages one behind the other; the last one with or without its padding. -/
def datagram (padLast : Bool) : List Reply → List UInt8
  | [] => []
  | [m] => if padLast then m.padded else m.bytes
  | m :: m' :: ms => m.padded ++ datagram padLast (m' :: ms)

/-- The first decisive message settles the result. -/
def replyMeaning (seq : UInt32) (type : Nat) (msgs : List Reply) : Int :=
  match msgs.find? fun m => decide (m.Decisive seq type) with
  | some m => m.verdict
  | none => -1

/-! ## One round -/

section Round

variable {m : Reply}

theorem Reply.length_bytes (m : Reply) : m.bytes.length = m.len := by
  simp only [bytes, len, List.length_append, length_le16, length_le32]
  omega

theorem Reply.length_padded (m : Reply) : m.padded.length = align4 m.len := by
  have := le_align4 m.len
  rw [padded, List.length_append, length_bytes, length_zeros]
  omega

theorem le16At_append_right (pre bs : List UInt8) (i : Nat) :
    le16At (pre ++ bs) (pre.length + i) = le16At bs i := by
  simp only [le16At, Nat.add_assoc, byteAt_append_right]

theorem le32At_append_right (pre bs : List UInt8) (i : Nat) :
    le32At (pre ++ bs) (pre.length + i) = le32At bs i := by
  simp only [le32At, Nat.add_assoc, byteAt_append_right]

theorem le32At_append_left {bs : List UInt8} (rest : List UInt8) (h : 4 ≤ bs.length) :
    le32At (bs ++ rest) 0 = le32At bs 0 := by
  match bs, h with
  | a :: b :: c :: d :: bs, _ => rfl

/-- With fewer bytes left than a header the loop ends. -/
theorem replyScan_short {buf : List UInt8} {seq type off : Nat} {len : Int} (h : len < 16)
    (fuel : Nat) : replyScan buf seq type fuel off len = -1 := by
  cases fuel with
  | zero => rfl
  | succ fuel => rw [replyScan, if_neg fun hok => absurd hok.1 (by omega)]

/-- One round of the loop: a decisive message ends it, another one is skipped. -/
theorem replyScan_message (m : Reply) (pre rest : List UInt8) {seq : UInt32} {type : Nat} {len : Int}
    (hsmall : m.len < 4294967296) (hlen : (m.len : Int) ≤ len) (fuel : Nat) :
    replyScan (pre ++ (m.bytes ++ rest)) seq.toNat type (fuel + 1) pre.length len =
      if m.Decisive seq type then m.verdict
      else replyScan (pre ++ (m.bytes ++ rest)) seq.toNat type fuel (pre.length + align4 m.len)
        (len - align4 m.len) := by
  have hmlen : le32At (pre ++ (m.bytes ++ rest)) pre.length = m.len :=
    (le32At_append_right pre _ 0).trans (le32At_le32 [] _ hsmall)
  have hseq : le32At (pre ++ (m.bytes ++ rest)) (pre.length + 8) = m.seq.toNat :=
    (le32At_append_right pre _ 8).trans (le32At_le32 [] [] m.seq.toNat_lt)
  have htype : le16At (pre ++ (m.bytes ++ rest)) (pre.length + 4) = m.type.toNat :=
    (le16At_append_right pre _ 4).trans (le16At_le16 [] [] m.type.toNat_lt)
  have hcode : m.type.toNat = NLMSG_ERROR →
      le32At (pre ++ (m.bytes ++ rest)) (pre.length + 16) = m.code := fun herr =>
    (le32At_append_right pre _ 16).trans (le32At_append_left rest (Nat.le_trans (by decide) (m.full herr)))
  have h16 : 16 ≤ m.len := Nat.le_add_right _ _
  rw [replyScan, hmlen, hseq, htype, if_pos ⟨by omega, h16, hlen⟩]
  by_cases hs : m.seq = seq
  · rw [if_neg fun h => h (congrArg UInt32.toNat hs)]
    by_cases herr : m.type.toNat = NLMSG_ERROR
    · have hdec : m.Decisive seq type := ⟨hs, .inl herr⟩
      rw [if_pos herr, hcode herr, if_pos hdec, Reply.verdict]
      simp only [herr, true_and]
    · rw [if_neg herr]
      by_cases hend : m.type.toNat = type ∨ m.type.toNat = NLMSG_DONE
      · rw [if_pos hend, if_pos ⟨hs, .inr hend⟩, Reply.verdict, if_neg fun h => herr h.1]
      · rw [if_neg hend, if_neg fun h => h.2.elim herr hend]
  · rw [if_pos fun h => hs (UInt32.toNat_inj.mp h), if_neg fun h => hs h.1]

end Round

/-! ## The loop -/

theorem length_datagram_cons (padLast : Bool) (m : Reply) (ms : List Reply) :
    m.len ≤ (datagram padLast (m :: ms)).length := by
  have := le_align4 m.len
  cases ms with
  | nil =>
    simp only [datagram]
    split
    · rw [Reply.length_padded]
      exact this
    · exact Nat.le_of_eq (Reply.length_bytes m).symm
  | cons m' ms =>
    rw [datagram, List.length_append, Reply.length_padded]
    omega

/-- Every message takes at least a header. -/
theorem length_le_datagram (padLast : Bool) (msgs : List Reply) :
    16 * msgs.length ≤ (datagram padLast msgs).length := by
  induction msgs with
  | nil => exact Nat.zero_le _
  | cons m ms ih =>
    have h16 : 16 ≤ m.len := Nat.le_add_right _ _
    have := le_align4 m.len
    cases ms with
    | nil => exact Nat.le_trans h16 (length_datagram_cons padLast m [])
    | cons m' ms =>
      rw [datagram, List.length_append, Reply.length_padded]
      simp only [List.length_cons] at ih ⊢
      omega

theorem replyMeaning_cons (seq : UInt32) (type : Nat) (m : Reply) (ms : List Reply) :
    replyMeaning seq type (m :: ms) =
      if m.Decisive seq type then m.verdict else replyMeaning seq type ms := by
  by_cases h : m.Decisive seq type <;> simp [replyMeaning, h]

/-- The loop on a datagram, wherever it starts in the buffer. -/
theorem replyScan_datagram (padLast : Bool) (seq : UInt32) (type : Nat) (msgs : List Reply)
    (pre tail : List UInt8) (hfit : (datagram padLast msgs).length < 4294967296) {fuel : Nat}
    (hfuel : msgs.length < fuel) :
    replyScan (pre ++ (datagram padLast msgs ++ tail)) seq.toNat type fuel pre.length
      (datagram padLast msgs).length = replyMeaning seq type msgs := by
  induction msgs generalizing pre fuel with
  | nil => exact replyScan_short (show ((0 : Nat) : Int) < 16 by decide) fuel
  | cons m ms ih =>
    obtain ⟨fuel, rfl⟩ := Nat.exists_eq_succ_of_ne_zero (Nat.ne_of_gt (Nat.zero_lt_of_lt hfuel))
    have hfirst := length_datagram_cons padLast m ms
    have hsmall : m.len < 4294967296 := Nat.lt_of_le_of_lt hfirst hfit
    have hlen : (m.len : Int) ≤ (datagram padLast (m :: ms)).length := by omega
    rw [replyMeaning_cons]
    cases ms with
    | nil =>
      -- behind the last message at most its padding is left
      have hshort : ((datagram padLast [m]).length : Int) - align4 m.len < 16 := by
        have := le_align4 m.len
        have hp := Reply.length_padded m
        have hb := Reply.length_bytes m
        simp only [datagram]
        split <;> omega
      obtain ⟨rest, hrest⟩ : ∃ rest, datagram padLast [m] ++ tail = m.bytes ++ rest := by
        simp only [datagram]
        split
        · exact ⟨_, List.append_assoc _ _ _⟩
        · exact ⟨tail, rfl⟩
      rw [hrest, replyScan_message m pre rest hsmall hlen, replyScan_short hshort]
      rfl
    | cons m' ms =>
      have hsplit : datagram padLast (m :: m' :: ms) ++ tail =
          m.bytes ++ (zeros (align4 m.len - m.len) ++ (datagram padLast (m' :: ms) ++ tail)) := by
        simp only [datagram, Reply.padded, List.append_assoc]
      have hlength : (datagram padLast (m :: m' :: ms)).length =
          align4 m.len + (datagram padLast (m' :: ms)).length := by
        rw [datagram, List.length_append, Reply.length_padded]
      have hnext := ih (pre ++ m.padded) (by omega) (Nat.lt_of_succ_lt_succ hfuel)
      have hbuf : pre ++ (m.bytes ++ (zeros (align4 m.len - m.len) ++
          (datagram padLast (m' :: ms) ++ tail))) =
          pre ++ m.padded ++ (datagram padLast (m' :: ms) ++ tail) := by
        simp only [Reply.padded, List.append_assoc]
      have hoff : pre.length + align4 m.len = (pre ++ m.padded).length := by
        rw [List.length_append, Reply.length_padded]
      have hleft : ((datagram padLast (m :: m' :: ms)).length : Int) - align4 m.len =
          (datagram padLast (m' :: ms)).length := by omega
      rw [hsplit, replyScan_message m pre _ hsmall hlen, hoff, hleft, hbuf, hnext]

/-- Messages with another sequence number play no part. -/
theorem replyMeaning_filter (seq : UInt32) (type : Nat) (msgs : List Reply) :
    replyMeaning seq type (msgs.filter (·.seq = seq)) = replyMeaning seq type msgs := by
  induction msgs with
  | nil => rfl
  | cons m ms ih =>
    by_cases hs : m.seq = seq
    · rw [List.filter_cons_of_pos (by simpa using hs), replyMeaning_cons, replyMeaning_cons, ih]
    · rw [List.filter_cons_of_neg (by simpa using hs), replyMeaning_cons, if_neg fun h => hs h.1, ih]

/-- Where `nl_send_recv` receives a datagram, its result is the meaning of the
messages; the fuel of the loop is never used up, and messages with another
sequence number do not matter. -/
theorem reply_meaning (msgs : List Reply) (padLast : Bool) (seq : UInt32) (type : Nat)
    (hfit : (datagram padLast msgs).length ≤ 4096) :
    (∀ (stack : List UInt8) (fuel : Nat), msgs.length < fuel →
      replyScan (datagram padLast msgs ++ stack) seq.toNat type fuel 0
        (datagram padLast msgs).length = replyMeaning seq type msgs) ∧
    msgs.length < 4096 ∧
    (∀ (sock fd : Int) (req : NlMsg) (r : Int) (h : List SysEvent),
      Run Machine.history (nlSendRecv sock req seq.toNat type) [] (.ret r) h →
      (⟨.recvmsg fd, .ok (datagram padLast msgs)⟩ : SysEvent) ∈ h → r = replyMeaning seq type msgs) ∧
    replyMeaning seq type (msgs.filter (·.seq = seq)) = replyMeaning seq type msgs := by
  have hscan : ∀ (stack : List UInt8) (fuel : Nat), msgs.length < fuel →
      replyScan (datagram padLast msgs ++ stack) seq.toNat type fuel 0
        (datagram padLast msgs).length = replyMeaning seq type msgs := fun stack fuel hfuel =>
    replyScan_datagram padLast seq type msgs [] stack (by omega) hfuel
  have hcount : msgs.length < 4096 := by
    have := length_le_datagram padLast msgs
    omega
  refine ⟨hscan, hcount, fun sock fd req r h hrun hmem => ?_, replyMeaning_filter seq type msgs⟩
  have hwp : wp Machine.history (nlSendRecv sock req seq.toNat type) (fun r h =>
      (⟨.recvmsg fd, .ok (datagram padLast msgs)⟩ : SysEvent) ∈ h →
        r = replyMeaning seq type msgs) [] := by
    refine ⟨trivial, ?_⟩
    rintro (e | n) _ rfl
    · rintro hmem
      simp at hmem
    · refine ⟨trivial, ?_⟩
      rintro stack _ rfl
      refine ⟨trivial, ?_⟩
      rintro (e | data) _ rfl
      · rintro hmem
        simp at hmem
      · rintro hmem
        obtain ⟨-, rfl⟩ : fd = sock ∧ datagram padLast msgs = data := by simpa using hmem
        exact hscan _ 4096 hcount
  exact wp_run hwp hrun hmem

/-- A message of 19 bytes that answers another request, then the acknowledgement of an
`nl_set_up`. -/
def ackReplies : List Reply :=
  [⟨16, 0, 9, 0, [1, 2, 3], by decide⟩, ⟨2, 0, 2, 0, List.replicate 20 0, by decide⟩]

/-- The socket receives these replies. -/
def ackAnswer (_ : List SysEvent) : (c : Call) → Option (Answer c)
  | .recvmsg _ => some (.ok (datagram false ackReplies))
  | c => granted c

/-- The loop on them, and a run of `nl_send_recv` that receives them. -/
theorem reply_meaning_ack :
    replyScan (datagram false ackReplies ++ zeros 4040) 2 RTM_NEWLINK 4096 0 56 = 0 ∧
    ∃ r h, Run Machine.history (nlSendRecv 6 (setUpMsg 7) 2 RTM_NEWLINK) [] (.ret r) h ∧
      (⟨.recvmsg 6, .ok (datagram false ackReplies)⟩ : SysEvent) ∈ h ∧ r = 0 := by
  obtain ⟨hscan, -, hrecv, -⟩ := reply_meaning ackReplies false 2 RTM_NEWLINK (by decide)
  obtain ⟨r, h, hrun, hmem⟩ : ∃ r h,
      Run Machine.history (nlSendRecv 6 (setUpMsg 7) 2 RTM_NEWLINK) [] (.ret r) h ∧
        (⟨.recvmsg 6, .ok (datagram false ackReplies)⟩ : SysEvent) ∈ h :=
    ⟨_, _, run_play ackAnswer (fun h c r => h ++ [⟨c, r⟩]) (fun _ _ _ _ => rfl) rfl,
      List.mem_append_right _ List.mem_cons_self⟩
  exact ⟨hscan (zeros 4040) 4096 (by decide), r, h, hrun, hmem,
    hrecv 6 6 (setUpMsg 7) r h hrun hmem⟩

end Barco
