import Barco.Container
import Barco.Effect.Machine

/-!
# What `setup_dns` leaves in `/etc/resolv.conf`

`snprintf` returns the length the whole text would have had. `setup_dns` takes it for the
number of bytes in its buffer of 256, and for the mark of success.

1. `dns_faithful_iff`: the file holds the text and nothing else exactly for the addresses
   with which the text fits.
2. `long_dns_accepted`: an address of 176 bytes, for which it does not.
-/

namespace Barco

open Effect Prog

/-! ## The file -/

/-- The contents of the file, and the descriptor it is open at. -/
structure ResolvState where
  content : List UInt8
  fd : Option Nat

/-- `O_TRUNC` empties the file, and a write adds what it counts. -/
def resolvCall (s : ResolvState) : (c : Call) → Answer c → ResolvState → Prop
  | .open .resolvConf .rewrite, .ok fd, s' => s' = ⟨[], some fd⟩
  | .write fd data, .ok n, s' => n ≤ data.length ∧
    s' = if s.fd.map Int.ofNat = some fd then { s with content := s.content ++ data.take n } else s
  | _, _, s' => s' = s

def resolvKernel : Machine Call Answer ResolvState where
  may _ _ := True
  step s c r s' := resolvCall s c r s'

/-- The bytes that `snprintf` stores into the buffer. -/
def resolvStored (dnsServer : CStr) : List UInt8 := (resolvText dnsServer).take 255 ++ [0]

/-- The text fits into the buffer of 256 bytes with its NUL. -/
def ResolvFits (dnsServer : CStr) : Prop := (resolvText dnsServer).length ≤ 255

instance (dnsServer : CStr) : Decidable (ResolvFits dnsServer) :=
  inferInstanceAs (Decidable (_ ≤ _))

/-- Only bytes that `snprintf` stored are written, 0 means that the file is the text, and
a text that does not fit is an error. -/
structure DnsFaithful (dnsServer : CStr) : Prop where
  handed : ∀ s fd data k s',
    Run resolvKernel (setupDns dnsServer) s (.call (.write fd data) k) s' →
      data <+: resolvStored dnsServer
  whole : ∀ s s', Run resolvKernel (setupDns dnsServer) s (.ret 0) s' →
    s'.content = resolvText dnsServer
  refused : ¬ ResolvFits dnsServer → ∀ s r s',
    Run resolvKernel (setupDns dnsServer) s (.ret r) s' → r = -1

/-! ## The two sides of the boundary -/

section Boundary

variable {dnsServer : CStr}

/-- The room that the fixed lines leave. -/
theorem resolvFits_iff : ResolvFits dnsServer ↔ dnsServer.1.length ≤ 174 := by
  have hhead : (ascii "# generated by barco\nnameserver ").length = 32 := by decide
  have htail : (ascii "\nnameserver 8.8.4.4\noptions timeout:2 attempts:3\n").length = 49 := by
    decide
  simp only [ResolvFits, resolvText, List.length_append]
  omega

/-- As many bytes as the text has: the text itself when it fits. -/
theorem bufferBytes_fits {text : List UInt8} (h : text.length ≤ 255) (buf beyond : List UInt8) :
    bufferBytes text buf text.length beyond = text := by
  simp only [bufferBytes, List.take_of_length_le h, List.append_assoc]
  exact List.take_left

theorem length_bufferBytes {text : List UInt8} (h : 255 < text.length) (buf : List UInt8)
    {beyond : List UInt8} (hbeyond : beyond.length = text.length - 256) :
    (bufferBytes text buf text.length beyond).length = text.length := by
  have hwritten : (text.take 255 ++ [0]).length = 256 := by
    rw [List.length_append, List.length_take]
    simp only [List.length_singleton]
    omega
  simp only [bufferBytes, List.length_take, List.length_append, hwritten]
  omega

/-- Every write hands over bytes that `snprintf` stored. -/
def StoredOnly (dnsServer : CStr) (_ : ResolvState) : Call → Prop
  | .write _ data => data <+: resolvStored dnsServer
  | _ => True

theorem setupDns_fits (h : ResolvFits dnsServer) (s : ResolvState) :
    wp (resolvKernel.guard (StoredOnly dnsServer)) (setupDns dnsServer)
      (fun r s' => r = 0 → s'.content = resolvText dnsServer) s := by
  have hprefix : resolvText dnsServer <+: resolvStored dnsServer := by
    rw [resolvStored, List.take_of_length_le h]
    exact List.prefix_append _ _
  refine wp_sys trivial ?_
  rintro (e | fd) s₁ h₁
  · exact nofun
  · obtain rfl : s₁ = ⟨[], some fd⟩ := h₁
    refine wp_sys trivial fun buf s₂ h₂ => ?_
    obtain rfl : s₂ = ⟨[], some fd⟩ := h₂
    refine wp_sys trivial fun beyond s₃ h₃ => ?_
    obtain rfl : s₃ = ⟨[], some fd⟩ := h₃
    rw [bufferBytes_fits h]
    refine wp_sys hprefix ?_
    rintro (e | n) s₄ h₄
    · refine wp_sys (c := .close fd) trivial fun _ _ _ => ?_
      exact nofun
    · obtain ⟨-, rfl⟩ := h₄
      refine wp_sys (c := .close fd) trivial fun _ s₅ h₅ => ?_
      obtain rfl := h₅
      show (if n = (resolvText dnsServer).length then (0 : Int) else -1) = 0 → _
      split
      · rename_i hn
        intro _
        simp [hn]
      · exact nofun

/-- A text that does not fit is written all the same, with what lies behind the buffer. -/
theorem setupDns_accepts (h : ¬ ResolvFits dnsServer) (s : ResolvState) :
    ∃ s', Run resolvKernel (setupDns dnsServer) s (.ret 0) s' := by
  have hlong : 255 < (resolvText dnsServer).length := Nat.lt_of_not_le h
  obtain ⟨buf⟩ : Nonempty (Answer (.uninit 256)) :=
    ⟨⟨List.replicate 256 0, List.length_replicate⟩⟩
  obtain ⟨beyond⟩ : Nonempty (Answer (.uninit ((resolvText dnsServer).length - 256))) :=
    ⟨⟨List.replicate _ 0, List.length_replicate⟩⟩
  have hlen := length_bufferBytes hlong buf.1 beyond.2
  refine runs_sys (c := .open .resolvConf .rewrite) (r := .ok 5) rfl ?_
  refine runs_sys (c := .uninit 256) (r := buf) rfl ?_
  refine runs_sys (c := .uninit ((resolvText dnsServer).length - 256)) (r := beyond) rfl ?_
  refine runs_sys (c := .write 5 _) (r := .ok (resolvText dnsServer).length)
    ⟨Nat.le_of_eq hlen.symm, rfl⟩ ?_
  refine runs_sys (c := .close 5) (r := .ok ()) rfl ?_
  simp only [if_pos, pure_eq]
  exact ⟨_, .refl _ _⟩

end Boundary

/-- `setup_dns` is right about the addresses of at most 174 bytes and about no others. -/
theorem dns_faithful_iff (dnsServer : CStr) :
    DnsFaithful dnsServer ↔ dnsServer.1.length ≤ 174 := by
  rw [← resolvFits_iff]
  constructor
  · intro h
    by_contra hno
    obtain ⟨s', hrun⟩ := setupDns_accepts hno ⟨[], none⟩
    exact absurd (h.refused hno _ 0 s' hrun) (by decide)
  · intro h
    refine ⟨fun s fd data k s' hrun => ?_, fun s s' hrun => ?_, fun hno => absurd h hno⟩
    · exact run_call (P := StoredOnly dnsServer) (setupDns_fits h s) hrun
    · exact wp_run (setupDns_fits h s) (hrun.guard _) rfl

/-- An address of 176 bytes: 257 bytes are written from a buffer of 256, and accepted. -/
theorem long_dns_accepted : ¬ DnsFaithful ⟨List.replicate 176 49, by decide +kernel⟩ := by
  intro h
  have hno : ¬ ResolvFits ⟨List.replicate 176 49, by decide +kernel⟩ := by decide +kernel
  obtain ⟨s', hrun⟩ := setupDns_accepts hno ⟨[], none⟩
  exact absurd (h.refused hno _ 0 s' hrun) (by decide)

end Barco
