import AshA2A.A2ATransport.WebhookPolicy

/-! What is not a public address, and which of these the policy does not block. -/

namespace AshA2A.A2ATransport.WebhookPolicy

/-! ## The address registries -/

/-- This network, private, carrier NAT, loopback, link-local, private, protocol assignments, documentation,
private, benchmarks, documentation twice, multicast and reserved. -/
def Special (a b c : Nat) : Prop :=
  a = 0 ∨ a = 10 ∨ (a = 100 ∧ 64 ≤ b ∧ b ≤ 127) ∨ a = 127 ∨ (a = 169 ∧ b = 254) ∨ (a = 172 ∧ 16 ≤ b ∧ b ≤ 31) ∨
    (a = 192 ∧ b = 0 ∧ c = 0) ∨ (a = 192 ∧ b = 0 ∧ c = 2) ∨ (a = 192 ∧ b = 168) ∨ (a = 198 ∧ 18 ≤ b ∧ b ≤ 19) ∨
    (a = 198 ∧ b = 51 ∧ c = 100) ∨ (a = 203 ∧ b = 0 ∧ c = 113) ∨ (224 ≤ a ∧ a ≤ 239) ∨ 240 ≤ a

/-- Unique local, link-local, site-local, multicast, discard and documentation. -/
def SpecialV6 (a b c d : Nat) : Prop :=
  (0xFC00 ≤ a ∧ a ≤ 0xFDFF) ∨ (0xFE80 ≤ a ∧ a ≤ 0xFEBF) ∨ (0xFEC0 ≤ a ∧ a ≤ 0xFEFF) ∨ 0xFF00 ≤ a ∨
    (a = 0x100 ∧ b = 0 ∧ c = 0 ∧ d = 0) ∨ (a = 0x2001 ∧ b = 0xDB8)

/-- The IPv6 addresses that stand for an IPv4 address. -/
inductive Carries : Ip → Ip → Prop where
  | mapped (hi lo) : Carries (.v6 0 0 0 0 0 0xFFFF hi lo) (embedded hi lo)
  | compatible (hi lo) : Carries (.v6 0 0 0 0 0 0 hi lo) (embedded hi lo)
  | translated (hi lo) : Carries (.v6 0 0 0 0 0xFFFF 0 hi lo) (embedded hi lo)
  | nat64 (hi lo) : Carries (.v6 0x64 0xFF9B 0 0 0 0 hi lo) (embedded hi lo)
  | nat64Local (d e f hi lo) : Carries (.v6 0x64 0xFF9B 1 d e f hi lo) (embedded hi lo)
  /-- The octet behind the first two is skipped. -/
  | nat64LocalSplit (d e f g h) : Carries (.v6 0x64 0xFF9B 1 d e f g h)
      (.v4 (.ofNat 256 (d.val >>> 8)) (.ofNat 256 (d.val &&& 0xFF)) (.ofNat 256 (e.val &&& 0xFF)) (.ofNat 256 (f.val >>> 8)))
  | sixToFour (hi lo d e f g h) : Carries (.v6 0x2002 hi lo d e f g h) (embedded hi lo)
  | teredoServer (hi lo e f g h) : Carries (.v6 0x2001 0 hi lo e f g h) (embedded hi lo)
  | teredoClient (c d e f hi lo) : Carries (.v6 0x2001 0 c d e f hi lo) (embedded (0xFFFF - hi) (0xFFFF - lo))

inductive NonPublic : Ip → Prop where
  | special {a b c d} (special : Special a.val b.val c.val) : NonPublic (.v4 a b c d)
  | unspecified : NonPublic (.v6 0 0 0 0 0 0 0 0)
  | loopback : NonPublic (.v6 0 0 0 0 0 0 0 1)
  | specialV6 {a b c d e f g h} (special : SpecialV6 a.val b.val c.val d.val) : NonPublic (.v6 a b c d e f g h)
  | carries {ip target} (carries : Carries ip target) (target : NonPublic target) : NonPublic ip

/-- Site-local addresses, and the translated ones of an IPv4 address that is not public. -/
inductive Overlooked : Ip → Prop where
  | siteLocal {a b c d e f g h} (low : 0xFEC0 ≤ a.val) (high : a.val ≤ 0xFEFF) : Overlooked (.v6 a b c d e f g h)
  | translated {hi lo} (target : NonPublic (embedded hi lo)) : Overlooked (.v6 0 0 0 0 0xFFFF 0 hi lo)

/-! ## The ranges of the policy -/

section Ranges
variable {a b c d : Fin 256} {bits : Nat}

theorem bounded_v4 (a b c d : Fin 256) : Radix.Bounded 8 (Ip.v4 a b c d).parts := by
  intro digit member
  simp only [Ip.parts, List.mem_cons, List.not_mem_nil, or_false] at member
  rcases member with rfl | rfl | rfl | rfl <;> exact Fin.isLt _

theorem bounded_v6 (a b c d e f g h : Fin 65536) : Radix.Bounded 16 (Ip.v6 a b c d e f g h).parts := by
  intro digit member
  simp only [Ip.parts, List.mem_cons, List.not_mem_nil, or_false] at member
  rcases member with rfl | rfl | rfl | rfl | rfl | rfl | rfl | rfl <;> exact Fin.isLt _

theorem inCidr_v4 (x y z w : Fin 256) (within : bits ≤ 32) :
    inCidr (.v4 a b c d) ⟨.v4 x y z w, bits⟩ = true ↔ Radix.Agree 8 bits [a.val, b, c, d] [x.val, y, z, w] := by
  have length : (Ip.v4 a b c d).parts.length = (Ip.v4 x y z w).parts.length := rfl
  have agree := Radix.shift_eq_iff length (bounded_v4 a b c d) (bounded_v4 x y z w) within
  simpa [inCidr, toInt, Ip.parts] using agree

theorem inCidr_octet (x : Fin 256) : inCidr (.v4 a b c d) ⟨.v4 x 0 0 0, 8⟩ = true ↔ a.val = x.val := by
  rw [inCidr_v4 _ _ _ _ (by decide)]
  simp [Radix.agree_whole]

theorem inCidr_twoOctets (x y : Fin 256) :
    inCidr (.v4 a b c d) ⟨.v4 x y 0 0, 16⟩ = true ↔ a.val = x.val ∧ b.val = y.val := by
  rw [inCidr_v4 _ _ _ _ (by decide)]
  simp [Radix.agree_whole]

theorem inCidr_threeOctets (x y z : Fin 256) :
    inCidr (.v4 a b c d) ⟨.v4 x y z 0, 24⟩ = true ↔ a.val = x.val ∧ b.val = y.val ∧ c.val = z.val := by
  rw [inCidr_v4 _ _ _ _ (by decide)]
  simp [Radix.agree_whole]

/-- The second octet counts in part. -/
theorem inCidr_second (x y : Fin 256) (within : 8 < bits) (part : bits < 16) :
    inCidr (.v4 a b c d) ⟨.v4 x y 0 0, bits⟩ = true ↔
      a.val = x.val ∧ b.val >>> (16 - bits) = y.val >>> (16 - bits) := by
  rw [inCidr_v4 _ _ _ _ (by omega), Radix.agree_whole (by omega) (by omega), Radix.agree_part (by omega) (by omega),
    show 8 - (bits - 8) = 16 - bits by omega]

theorem inCidr_first (x : Fin 256) :
    inCidr (.v4 a b c d) ⟨.v4 x 0 0 0, 4⟩ = true ↔ a.val >>> 4 = x.val >>> 4 := by
  rw [inCidr_v4 _ _ _ _ (by decide), Radix.agree_part (by decide) (by decide)]

theorem inCidr_v6 {a b c d e f g h : Fin 65536} (s t u v w x y z : Fin 65536) (within : bits ≤ 128) :
    inCidr (.v6 a b c d e f g h) ⟨.v6 s t u v w x y z, bits⟩ = true ↔
      Radix.Agree 16 bits [a.val, b, c, d, e, f, g, h] [s.val, t, u, v, w, x, y, z] := by
  have length : (Ip.v6 a b c d e f g h).parts.length = (Ip.v6 s t u v w x y z).parts.length := rfl
  have agree := Radix.shift_eq_iff length (bounded_v6 a b c d e f g h) (bounded_v6 s t u v w x y z) within
  simpa [inCidr, toInt, Ip.parts] using agree

/-- The first group counts in part. -/
theorem inCidr_firstGroup {a b c d e f g h : Fin 65536} (s : Fin 65536) (some : bits ≠ 0) (part : bits < 16) :
    inCidr (.v6 a b c d e f g h) ⟨.v6 s 0 0 0 0 0 0 0, bits⟩ = true ↔ a.val >>> (16 - bits) = s.val >>> (16 - bits) := by
  rw [inCidr_v6 _ _ _ _ _ _ _ _ (by omega), Radix.agree_part part some]

/-- Only whole groups count. -/
theorem inCidr_groups {a b c d e f g h : Fin 65536} (s t u v w x y z : Fin 65536) (groups : Nat) (few : groups ≤ 8) :
    inCidr (.v6 a b c d e f g h) ⟨.v6 s t u v w x y z, groups * 16⟩ = true ↔
      [a.val, b, c, d, e, f, g, h].take groups = [s.val, t, u, v, w, x, y, z].take groups := by
  rw [inCidr_v6 _ _ _ _ _ _ _ _ (by omega)]
  exact Radix.agree_digits rfl few (by decide)

/-- The ranges of IPv4 are complete. -/
theorem blockedV4_iff : blockedV4Address (.v4 a b c d) = true ↔ Special a.val b.val c.val := by
  have bound := a.isLt
  have carrier : b.val >>> (16 - 10) = 64 >>> (16 - 10) ↔ 64 ≤ b.val ∧ b.val ≤ 127 := by
    rw [Nat.shiftRight_eq_div_pow]; omega
  have sixteen : b.val >>> (16 - 12) = 16 >>> (16 - 12) ↔ 16 ≤ b.val ∧ b.val ≤ 31 := by
    rw [Nat.shiftRight_eq_div_pow]; omega
  have benchmark : b.val >>> (16 - 15) = 18 >>> (16 - 15) ↔ 18 ≤ b.val ∧ b.val ≤ 19 := by
    rw [Nat.shiftRight_eq_div_pow]; omega
  have multicast : a.val >>> 4 = 224 >>> 4 ↔ 224 ≤ a.val ∧ a.val ≤ 239 := by
    rw [Nat.shiftRight_eq_div_pow]; omega
  have reserved : a.val >>> 4 = 240 >>> 4 ↔ 240 ≤ a.val := by
    rw [Nat.shiftRight_eq_div_pow]; omega
  have broadcast : Ip.v4 a b c d = .v4 255 255 255 255 → Special a.val b.val c.val := by
    intro same
    obtain ⟨rfl, -⟩ := Ip.v4.inj same
    simp [Special]
  have ranges : blockedV4.any (inCidr (.v4 a b c d)) = true ↔ Special a.val b.val c.val := by
    simp only [blockedV4, List.any_cons, List.any_nil, Bool.or_false, Bool.or_eq_true, inCidr_octet, inCidr_twoOctets,
      inCidr_threeOctets, inCidr_first, inCidr_second _ _ (show 8 < 10 by decide) (show 10 < 16 by decide),
      inCidr_second _ _ (show 8 < 12 by decide) (show 12 < 16 by decide),
      inCidr_second _ _ (show 8 < 15 by decide) (show 15 < 16 by decide)]
    exact or_congr Iff.rfl (or_congr Iff.rfl (or_congr (and_congr_right' carrier) (or_congr Iff.rfl (or_congr Iff.rfl
      (or_congr (and_congr_right' sixteen) (or_congr Iff.rfl (or_congr Iff.rfl (or_congr Iff.rfl
        (or_congr (and_congr_right' benchmark) (or_congr Iff.rfl (or_congr Iff.rfl (or_congr multicast reserved))))))))))))
  rw [blockedV4Address, Bool.or_eq_true, decide_eq_true_eq, ranges]
  exact or_iff_right_of_imp broadcast

/-- The ranges of IPv6, by their groups. -/
def RangesV6 (a b c d e f g h : Nat) : Prop :=
  (a = 0 ∧ b = 0 ∧ c = 0 ∧ d = 0 ∧ e = 0 ∧ f = 0 ∧ g = 0 ∧ h = 0) ∨
    (a = 0 ∧ b = 0 ∧ c = 0 ∧ d = 0 ∧ e = 0 ∧ f = 0 ∧ g = 0 ∧ h = 1) ∨
    (a = 0 ∧ b = 0 ∧ c = 0 ∧ d = 0 ∧ e = 0 ∧ f = 0) ∨ (a = 0x64 ∧ b = 0xFF9B ∧ c = 0 ∧ d = 0 ∧ e = 0 ∧ f = 0) ∨
    (a = 0x64 ∧ b = 0xFF9B ∧ c = 1) ∨ (a = 0x2001 ∧ b = 0) ∨ a = 0x2002 ∨ (a = 0x100 ∧ b = 0 ∧ c = 0 ∧ d = 0) ∨
    (a = 0x2001 ∧ b = 0xDB8) ∨ (0xFC00 ≤ a ∧ a ≤ 0xFDFF) ∨ (0xFE80 ≤ a ∧ a ≤ 0xFEBF) ∨ 0xFF00 ≤ a

theorem blockedV6_iff {a b c d e f g h : Fin 65536} :
    blockedV6.any (inCidr (.v6 a b c d e f g h)) = true ↔
      RangesV6 a.val b.val c.val d.val e.val f.val g.val h.val := by
  have bound := a.isLt
  have uniqueLocal : a.val >>> (16 - 7) = 0xFC00 >>> (16 - 7) ↔ 0xFC00 ≤ a.val ∧ a.val ≤ 0xFDFF := by
    rw [Nat.shiftRight_eq_div_pow]; omega
  have linkLocal : a.val >>> (16 - 10) = 0xFE80 >>> (16 - 10) ↔ 0xFE80 ≤ a.val ∧ a.val ≤ 0xFEBF := by
    rw [Nat.shiftRight_eq_div_pow]; omega
  have multicast : a.val >>> (16 - 8) = 0xFF00 >>> (16 - 8) ↔ 0xFF00 ≤ a.val := by
    rw [Nat.shiftRight_eq_div_pow]; omega
  simp only [blockedV6, List.any_cons, List.any_nil, Bool.or_false, Bool.or_eq_true]
  refine or_congr ((inCidr_groups _ _ _ _ _ _ _ _ 8 (by decide)).trans (by simp)) ?_
  refine or_congr ((inCidr_groups _ _ _ _ _ _ _ _ 8 (by decide)).trans (by simp)) ?_
  refine or_congr ((inCidr_groups _ _ _ _ _ _ _ _ 6 (by decide)).trans (by simp)) ?_
  refine or_congr ((inCidr_groups _ _ _ _ _ _ _ _ 6 (by decide)).trans (by simp)) ?_
  refine or_congr ((inCidr_groups _ _ _ _ _ _ _ _ 3 (by decide)).trans (by simp)) ?_
  refine or_congr ((inCidr_groups _ _ _ _ _ _ _ _ 2 (by decide)).trans (by simp)) ?_
  refine or_congr ((inCidr_groups _ _ _ _ _ _ _ _ 1 (by decide)).trans (by simp)) ?_
  refine or_congr ((inCidr_groups _ _ _ _ _ _ _ _ 4 (by decide)).trans (by simp)) ?_
  refine or_congr ((inCidr_groups _ _ _ _ _ _ _ _ 2 (by decide)).trans (by simp)) ?_
  exact or_congr ((inCidr_firstGroup _ (by decide) (by decide)).trans uniqueLocal)
    (or_congr ((inCidr_firstGroup _ (by decide) (by decide)).trans linkLocal)
      ((inCidr_firstGroup _ (by decide) (by decide)).trans multicast))

end Ranges

/-! ## What the policy blocks -/

theorem nonPublic_v4 {a b c d : Fin 256} (known : NonPublic (.v4 a b c d)) : Special a.val b.val c.val := by
  cases known with
  | special special => exact special
  | carries carries _ => cases carries

theorem blocked_of_ranges {a b c d e f g h : Fin 65536} (unmapped : ¬ (a = 0 ∧ b = 0 ∧ c = 0 ∧ d = 0 ∧ e = 0 ∧ f = 0xFFFF)) :
    blockedAddress (.v6 a b c d e f g h) = true ↔ RangesV6 a.val b.val c.val d.val e.val f.val g.val h.val := by
  rw [blockedAddress, if_neg unmapped, blockedV6_iff]

theorem embedded_blocked {hi lo : Fin 65536} (known : NonPublic (embedded hi lo)) :
    blockedV4Address (embedded hi lo) = true :=
  blockedV4_iff.mpr (nonPublic_v4 known)

theorem carries_blocked {ip target : Ip} (carries : Carries ip target) (known : NonPublic target) :
    blockedAddress ip = true ∨ Overlooked ip := by
  cases carries with
  | mapped hi lo =>
    refine .inl ?_
    rw [blockedAddress, if_pos ⟨rfl, rfl, rfl, rfl, rfl, rfl⟩]
    exact embedded_blocked known
  | translated hi lo => exact .inr (.translated known)
  | compatible hi lo => exact .inl ((blocked_of_ranges (by simp)).mpr (by simp [RangesV6]))
  | nat64 hi lo => exact .inl ((blocked_of_ranges (by simp)).mpr (by simp [RangesV6]))
  | nat64Local d e f hi lo => exact .inl ((blocked_of_ranges (by simp)).mpr (by simp [RangesV6]))
  | nat64LocalSplit d e f g h => exact .inl ((blocked_of_ranges (by simp)).mpr (by simp [RangesV6]))
  | sixToFour hi lo d e f g h => exact .inl ((blocked_of_ranges (by simp)).mpr (by simp [RangesV6]))
  | teredoServer hi lo e f g h => exact .inl ((blocked_of_ranges (by simp)).mpr (by simp [RangesV6]))
  | teredoClient c d e f hi lo => exact .inl ((blocked_of_ranges (by simp)).mpr (by simp [RangesV6]))

theorem special_ranges {a b c d : Nat} (e f g h : Nat) (special : SpecialV6 a b c d) :
    RangesV6 a b c d e f g h ∨ (0xFEC0 ≤ a ∧ a ≤ 0xFEFF) := by
  rcases special with uniqueLocal | linkLocal | siteLocal | multicast | discard | documentation
  · left; iterate 9 right
    exact .inl uniqueLocal
  · left; iterate 10 right
    exact .inl linkLocal
  · exact .inr siteLocal
  · left; iterate 11 right
    exact multicast
  · left; iterate 7 right
    exact .inl discard
  · left; iterate 8 right
    exact .inl documentation

/-- The ranges of the policy are complete but for two kinds. -/
theorem nonPublic_blocked {ip : Ip} (known : NonPublic ip) : blockedAddress ip = true ∨ Overlooked ip := by
  cases known with
  | special special => exact .inl (blockedV4_iff.mpr special)
  | unspecified => exact .inl ((blocked_of_ranges (by simp)).mpr (.inl (by simp)))
  | loopback => exact .inl ((blocked_of_ranges (by simp)).mpr (.inr (.inl (by simp))))
  | @specialV6 a b c d e f g h special =>
    rcases special_ranges e.val f.val g.val h.val special with ranges | ⟨low, high⟩
    · refine .inl ((blocked_of_ranges ?_).mpr ranges)
      rintro ⟨rfl, rfl, -⟩
      simp [SpecialV6] at special
    · exact .inr (.siteLocal low high)
  | carries carries target => exact carries_blocked carries target

theorem overlooked_passes {ip : Ip} (overlooked : Overlooked ip) : blockedAddress ip = false := by
  rw [Bool.eq_false_iff]
  cases overlooked with
  | @siteLocal a b c d e f g h low high =>
    have unmapped : ¬ (a = 0 ∧ b = 0 ∧ c = 0 ∧ d = 0 ∧ e = 0 ∧ f = 0xFFFF) := by
      rintro ⟨rfl, -⟩
      exact absurd low (by decide)
    rw [ne_eq, blocked_of_ranges unmapped]
    unfold RangesV6
    omega
  | @translated hi lo target =>
    rw [ne_eq, blocked_of_ranges (by simp)]
    simp [RangesV6]

end AshA2A.A2ATransport.WebhookPolicy
