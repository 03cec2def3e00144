import Mathlib.Data.List.TakeDrop

/-!
# IPv6 addresses

`uip_ipaddr_t`: sixteen bytes, of which the first eight are the prefix of a network and the last
eight the identifier of an interface.
-/

namespace Den2ne

/-- `uip_ipaddr_t`. -/
structure Ipaddr where
  u8 : List UInt8
  length_u8 : u8.length = 16
  deriving DecidableEq

/-- The identifier of an interface. -/
structure LinkId where
  u8 : List UInt8
  length_u8 : u8.length = 8
  deriving DecidableEq

namespace Ipaddr

/-- The last eight bytes. -/
def linkId (a : Ipaddr) : LinkId where
  u8 := a.u8.drop 8
  length_u8 := by rw [List.length_drop, a.length_u8]

/-- The address in the network of `a` with the identifier `l`. -/
def withLinkId (a : Ipaddr) (l : LinkId) : Ipaddr where
  u8 := a.u8.take 8 ++ l.u8
  length_u8 := by rw [List.length_append, List.length_take, a.length_u8, l.length_u8]; rfl

/-- `uip_ipaddr_prefixcmp`, which compares whole bytes. -/
def prefixcmp (a b : Ipaddr) (length : ℕ) : Bool :=
  a.u8.take (length / 8) = b.u8.take (length / 8)

/-- The addresses are in the same network. -/
def SameNetwork (a b : Ipaddr) : Prop := a.u8.take 8 = b.u8.take 8

instance (a b : Ipaddr) : Decidable (a.SameNetwork b) :=
  inferInstanceAs (Decidable (a.u8.take 8 = b.u8.take 8))

@[ext] theorem ext {a b : Ipaddr} (h : a.u8 = b.u8) : a = b := by
  cases a
  cases b
  cases h
  rfl

variable {a b : Ipaddr} {l : LinkId}

@[simp] theorem linkId_withLinkId : (a.withLinkId l).linkId = l := by
  cases l
  simp [linkId, withLinkId, a.length_u8]

theorem sameNetwork_withLinkId : a.SameNetwork (a.withLinkId l) := by
  simp [SameNetwork, withLinkId, a.length_u8]

theorem withLinkId_linkId (h : a.SameNetwork b) : a.withLinkId b.linkId = b := by
  apply ext
  rw [withLinkId, linkId]
  exact (congrArg (· ++ b.u8.drop 8) h).trans (List.take_append_drop 8 b.u8)

/-- In one network, the identifier tells the address. -/
theorem withLinkId_eq_iff (h : a.SameNetwork b) : a.withLinkId l = b ↔ l = b.linkId := by
  constructor
  · rintro rfl
    rw [linkId_withLinkId]
  · rintro rfl
    exact withLinkId_linkId h

end Ipaddr

end Den2ne
