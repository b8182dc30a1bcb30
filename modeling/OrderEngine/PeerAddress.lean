import OrderEngine.Library.Decimal

/-!
# TcpConnection: the text of the peer's address

`getPeerAddress` prints the address and the port of the peer into a buffer of 64 bytes. The log
knows a connection by this text.
-/
namespace PeerAddress

open Decimal

abbrev Bytes := List UInt8

def dot : UInt8 := 0x2E
def colon : UInt8 := 0x3A

/-- `sockaddr_in`: the bytes of the address and of the port, in network order. -/
structure SockaddrIn where
  addr1 : UInt8
  addr2 : UInt8
  addr3 : UInt8
  addr4 : UInt8
  portHigh : UInt8
  portLow : UInt8
  deriving DecidableEq, Repr

def ntohs (high low : UInt8) : Nat := 256 * high.toNat + low.toNat

/-- `inet_ntoa`: the four bytes in decimals, with dots between. -/
def inetNtoa (a : SockaddrIn) : Bytes :=
  digitsOf a.addr1.toNat ++ dot :: (digitsOf a.addr2.toNat ++ dot ::
    (digitsOf a.addr3.toNat ++ dot :: digitsOf a.addr4.toNat))

/-- What `"%s:%d"` prints. -/
def text (a : SockaddrIn) : Bytes := inetNtoa a ++ colon :: digitsOf (ntohs a.portHigh a.portLow)

/-- `snprintf` keeps what fits in front of the zero that ends the buffer. -/
def snprintf (size : Nat) (s : Bytes) : Bytes := s.take (size - 1)

/-- `TcpConnection::getPeerAddress`. -/
def getPeerAddress (a : SockaddrIn) : Bytes := snprintf 64 (text a)

theorem length_byte_le (b : UInt8) : (digitsOf b.toNat).length ≤ 3 := by
  apply length_digitsOf_le (by decide)
  have hlt := b.toNat_lt
  omega

theorem ntohs_lt (high low : UInt8) : ntohs high low < 65536 := by
  have hhigh := high.toNat_lt
  have hlow := low.toNat_lt
  rw [ntohs]
  omega

theorem length_text_le (a : SockaddrIn) : (text a).length ≤ 21 := by
  have hport : (digitsOf (ntohs a.portHigh a.portLow)).length ≤ 5 := by
    apply length_digitsOf_le (by decide)
    have hlt := ntohs_lt a.portHigh a.portLow
    omega
  have h1 := length_byte_le a.addr1
  have h2 := length_byte_le a.addr2
  have h3 := length_byte_le a.addr3
  have h4 := length_byte_le a.addr4
  simp only [text, inetNtoa, List.length_append, List.length_cons]
  omega

/-- The buffer is large enough. -/
theorem getPeerAddress_eq (a : SockaddrIn) : getPeerAddress a = text a := by
  have hlength := length_text_le a
  rw [getPeerAddress, snprintf, List.take_of_length_le]
  omega

/-- A number ends where something other than a digit follows. -/
theorem digits_cons_inj {m n : Nat} {c : UInt8} (hc : isDigit c = false) {r r' : Bytes}
    (h : digitsOf m ++ c :: r = digitsOf n ++ c :: r') : m = n ∧ r = r' := by
  have hstop : ∀ s : Bytes, NoDigit (c :: s) := by
    intro s b rest hcons
    cases hcons
    exact hc
  have hm := takeWhile_digits (fun b (hb : b ∈ digitsOf m) => isDigit_of_mem_digitsOf hb) (hstop r)
  have hn := takeWhile_digits (fun b (hb : b ∈ digitsOf n) => isDigit_of_mem_digitsOf hb) (hstop r')
  rw [h] at hm
  have hdigits : digitsOf m = digitsOf n := hm.1.symm.trans hn.1
  have hrest : c :: r = c :: r' := hm.2.symm.trans hn.2
  refine ⟨?_, (List.cons.inj hrest).2⟩
  rw [← natOf_digitsOf m, hdigits, natOf_digitsOf]

theorem digitsOf_inj {m n : Nat} (h : digitsOf m = digitsOf n) : m = n := by
  rw [← natOf_digitsOf m, h, natOf_digitsOf]

theorem ntohs_inj {high low high' low' : UInt8} (h : ntohs high low = ntohs high' low') :
    high = high' ∧ low = low' := by
  have hlow := low.toNat_lt
  have hlow' := low'.toNat_lt
  rw [ntohs, ntohs] at h
  rw [← UInt8.toNat_inj, ← UInt8.toNat_inj]
  omega

theorem text_inj {a b : SockaddrIn} (h : text a = text b) : a = b := by
  simp only [text, inetNtoa, List.append_assoc, List.cons_append] at h
  obtain ⟨h1, h⟩ := digits_cons_inj (by decide) h
  obtain ⟨h2, h⟩ := digits_cons_inj (by decide) h
  obtain ⟨h3, h⟩ := digits_cons_inj (by decide) h
  obtain ⟨h4, h⟩ := digits_cons_inj (by decide) h
  obtain ⟨hhigh, hlow⟩ := ntohs_inj (digitsOf_inj h)
  cases a
  cases b
  simp only [SockaddrIn.mk.injEq]
  exact ⟨UInt8.toNat_inj.mp h1, UInt8.toNat_inj.mp h2, UInt8.toNat_inj.mp h3,
    UInt8.toNat_inj.mp h4, hhigh, hlow⟩

/-- The buffer holds the whole text of every peer, and the text tells any two peers apart. -/
theorem getPeerAddress_identifies (a b : SockaddrIn) :
    getPeerAddress a = text a ∧ (text a).length < 64 ∧
      (getPeerAddress a = getPeerAddress b ↔ a = b) := by
  have hlength := length_text_le a
  refine ⟨getPeerAddress_eq a, by omega, ?_⟩
  rw [getPeerAddress_eq, getPeerAddress_eq]
  constructor
  · exact text_inj
  · intro h
    rw [h]

end PeerAddress
