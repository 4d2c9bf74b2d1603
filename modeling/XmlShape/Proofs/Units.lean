import Mathlib.Algebra.Order.Ring.Abs
import Mathlib.Algebra.Order.Ring.Int
import XmlShape.Proofs.Parts
import XmlShape.Size

/-! # Units of sizes

A unit is chosen for the size before it is rounded to tenths. So a size may round up to 1024.0 of a unit, when 1.0 of
the next one would be the same: this happens less than a twentieth of a unit below the next one, and nowhere else
(`render_inUnit`). -/

namespace XmlShape.Size

/-! ## Rounding -/

/-- A half goes to the even neighbour, so a rounded quotient is below an even number where the exact one is more than
a half below it. -/
theorem roundDiv_lt_iff {n d q : Nat} (hd : 0 < d) (hq : q % 2 = 0) :
    roundDiv n d < q ↔ 2 * n + d < 2 * (d * q) := by
  have hn := Nat.div_add_mod n d
  have hr := Nat.mod_lt n hd
  have hlt : ∀ a b : Nat, a < b → d * a + d ≤ d * b := fun a b h => Nat.mul_succ d a ▸ Nat.mul_le_mul_left d h
  have hle : ∀ a b : Nat, b ≤ a → d * b ≤ d * a := fun a b h => Nat.mul_le_mul_left d h
  unfold roundDiv
  simp only
  generalize n / d = whole at *
  generalize n % d = rest at *
  have hbelow := hlt whole q
  have habove := hle whole q
  have hbelow' := hlt (whole + 1) q
  have habove' := hle (whole + 1) q
  rw [Nat.mul_succ] at hbelow' habove'
  split
  · omega
  · split
    · omega
    · split <;> omega

/-- Rounding moves a quotient by a half at most. -/
theorem roundDiv_nearest (n : Nat) {d : Nat} (hd : 0 < d) :
    2 * (d * roundDiv n d) ≤ 2 * n + d ∧ 2 * n ≤ 2 * (d * roundDiv n d) + d := by
  have hn := Nat.div_add_mod n d
  have hr := Nat.mod_lt n hd
  unfold roundDiv
  simp only
  split
  · omega
  · split
    · rw [Nat.mul_succ]
      omega
    · split
      · omega
      · rw [Nat.mul_succ]
        omega

/-! ## Rounding to 53 bits -/

theorem roundToBits_eq_self {n : Nat} (h : n < 2 ^ 53) : roundToBits n = n :=
  if_pos h

section
variable {n : Nat} (h : 2 ^ 53 ≤ n)
include h

/-- The last of 53 bits counts `u`. -/
theorem exists_lastBit : ∃ k u, 53 ≤ k ∧ u = 2 ^ (k - 52) ∧ 2 ^ 52 * u ≤ n ∧ n < 2 ^ 53 * u ∧
    2 ^ 52 ≤ roundDiv n u ∧ roundToBits n = u * roundDiv n u := by
  have hne : n ≠ 0 := by
    rintro rfl
    exact absurd h (by decide)
  have hlog : 53 ≤ n.log2 := (Nat.le_log2 hne).mpr h
  have hpos : 0 < 2 ^ (n.log2 - 52) := Nat.two_pow_pos _
  have hlow : 2 ^ 52 * 2 ^ (n.log2 - 52) ≤ n := by
    rw [← pow_add, Nat.add_sub_cancel' (by omega)]
    exact Nat.log2_self_le hne
  refine ⟨n.log2, _, hlog, rfl, hlow, ?_, Nat.not_lt.mp fun hlt => ?_, ?_⟩
  · rw [← pow_add, show 53 + (n.log2 - 52) = n.log2 + 1 by omega]
    exact Nat.lt_log2_self
  · have := (roundDiv_lt_iff hpos (by decide)).mp hlt
    omega
  · rw [Nat.mul_comm]
    exact if_neg (Nat.not_lt.mpr h)

theorem le_roundToBits : 2 ^ 53 ≤ roundToBits n := by
  obtain ⟨k, u, hk, hu, -, -, hquotient, hround⟩ := exists_lastBit h
  have hu2 : 2 ^ 1 ≤ u := hu ▸ Nat.pow_le_pow_right (by decide) (by omega)
  have := Nat.mul_le_mul hu2 hquotient
  rw [hround]
  omega

end

/-- What is half a last bit or less below a power of two is rounded up to it. -/
theorem roundToBits_lt_iff (n e : Nat) : roundToBits n < 2 ^ 54 * 2 ^ e ↔ n + 2 ^ e < 2 ^ 54 * 2 ^ e := by
  have hpos : 0 < 2 ^ e := Nat.two_pow_pos e
  have hmono : ∀ {a b : Nat}, a ≤ b → 2 ^ a ≤ 2 ^ b := Nat.pow_le_pow_right (by decide)
  rcases Nat.lt_or_ge n (2 ^ 53) with h | h
  · rw [roundToBits_eq_self h]
    omega
  · obtain ⟨k, u, hk, hu, hlow, hhigh, hleast, hround⟩ := exists_lastBit h
    have hu0 : 0 < u := hu ▸ Nat.two_pow_pos _
    rw [hround]
    rcases Nat.lt_trichotomy k (e + 53) with hlt | rfl | hgt
    · have hsmall : u ≤ 2 ^ e := hu ▸ hmono (by omega)
      have hquotient : roundDiv n u < 2 ^ 53 + 2 := (roundDiv_lt_iff hu0 (by decide)).mpr (by omega)
      have hproduct := Nat.mul_le_mul hsmall (Nat.le_of_lt_succ hquotient)
      omega
    · have hdouble : u = 2 ^ 1 * 2 ^ e := by rw [hu, ← pow_add, show e + 53 - 52 = 1 + e by omega]
      have hquotient := roundDiv_lt_iff (n := n) (q := 2 ^ 53) hu0 (by decide)
      have hscaled := Nat.mul_lt_mul_left (b := roundDiv n u) (c := 2 ^ 53) hu0
      omega
    · have hlarge : 2 ^ 2 * 2 ^ e ≤ u := by
        rw [hu, ← pow_add]
        exact hmono (by omega)
      have hproduct := Nat.mul_le_mul_left u hleast
      omega

theorem limit_eq : limit = 2 ^ 54 * 2 ^ 970 := by
  decide +kernel

theorem limit_le_iff (n : Nat) : limit ≤ roundToBits n ↔ (2 ^ 1024 - 2 ^ 970 : Int) ≤ n := by
  have hlimit : (limit : Int) = 2 ^ 1024 := by decide +kernel
  rw [← Nat.not_lt, ← hlimit, limit_eq, roundToBits_lt_iff, Nat.not_lt, sub_le_iff_le_add]
  exact_mod_cast Iff.rfl

theorem not_limit_le {n : Nat} (h : n < 2 ^ 63) : ¬ limit ≤ roundToBits n := by
  have hroom : (2 ^ 63 : Int) ≤ 2 ^ 1024 - 2 ^ 970 := by decide +kernel
  have hn : (n : Int) < 2 ^ 63 := by exact_mod_cast h
  rw [limit_le_iff]
  exact not_le.mpr (hn.trans_le hroom)

/-! ## Tenths -/

section
variable {n k : Nat}

theorem ten_le_tenths (hlow : 1024 ^ k ≤ n) : 10 ≤ roundDiv (10 * n) (1024 ^ k) := by
  refine Nat.not_lt.mp fun hlt => ?_
  have := (roundDiv_lt_iff (Nat.pow_pos (by decide)) (by decide)).mp hlt
  omega

theorem tenths_lt_iff (hhigh : n < 1024 ^ (k + 1)) :
    roundDiv (10 * n) (1024 ^ k) ≤ 10240 ∧
      (roundDiv (10 * n) (1024 ^ k) < 10240 ↔ ¬ 20479 * 1024 ^ k ≤ 20 * n) := by
  have hpos : 0 < 1024 ^ k := Nat.pow_pos (by decide)
  have hbelow := roundDiv_lt_iff (n := 10 * n) (q := 10240) hpos (by decide)
  have hnear := (roundDiv_nearest (10 * n) hpos).1
  rw [pow_succ] at hhigh
  refine ⟨Nat.not_lt.mp fun hlt => ?_, by omega⟩
  have := Nat.mul_le_mul_left (1024 ^ k) hlt
  omega

theorem tenths_nearest (n k : Nat) :
    2 * |10 * (n : Int) - roundDiv (10 * n) (1024 ^ k) * 1024 ^ k| ≤ 1024 ^ k := by
  obtain ⟨hup, hdown⟩ := roundDiv_nearest (10 * n) (d := 1024 ^ k) (Nat.pow_pos (by decide))
  rw [Nat.mul_comm (1024 ^ k)] at hup hdown
  have hup : (2 * (roundDiv (10 * n) (1024 ^ k) * 1024 ^ k) : Int) ≤ 2 * (10 * n) + 1024 ^ k := by exact_mod_cast hup
  have hdown : (2 * (10 * n) : Int) ≤ 2 * (roundDiv (10 * n) (1024 ^ k) * 1024 ^ k) + 1024 ^ k := by
    exact_mod_cast hdown
  rcases abs_cases (10 * (n : Int) - roundDiv (10 * n) (1024 ^ k) * 1024 ^ k) with h | h <;> omega

end

/-! ## Units -/

def units : List (Nat × String) :=
  [(1, "KB"), (2, "MB"), (3, "GB"), (4, "TB")]

def shown (tenths : Nat) (unit : String) : String :=
  toString (tenths / 10) ++ "." ++ toString (tenths % 10) ++ " " ++ unit

theorem shown_inj {tenths others : Nat} {unit other : String} (h : shown tenths unit = shown others other) :
    tenths = others ∧ unit = other := by
  have hpoint : ∀ s : String, ∀ c ∈ ("." ++ s).toList.head?, c.isDigit = false := by simp
  have hspace : ∀ s : String, ∀ c ∈ (" " ++ s).toList.head?, c.isDigit = false := by simp
  simp only [shown, String.append_assoc] at h
  obtain ⟨hwhole, h⟩ := Text.toString_append_inj (hpoint _) (hpoint _) h
  obtain ⟨-, h⟩ := Text.append_inj_of_length rfl h
  obtain ⟨htenth, h⟩ := Text.toString_append_inj (hspace _) (hspace _) h
  exact ⟨by omega, (Text.append_inj_of_length rfl h).2⟩

/-- The size is at most a twentieth of a unit below the next unit. -/
def NearNext (size : Int) : Prop :=
  ∃ k, 1 ≤ k ∧ k ≤ 3 ∧ 20479 * 1024 ^ k ≤ 20 * size ∧ size < 1024 ^ (k + 1)

theorem unitFor_spec {n : Nat} (h : 1024 ≤ n) :
    ∃ k unit, (k, unit) ∈ units ∧ unitFor n = (unit, 1024 ^ k) ∧ 1024 ^ k ≤ n ∧
      (unit ≠ "TB" → 1 ≤ k ∧ k ≤ 3 ∧ n < 1024 ^ (k + 1)) := by
  unfold unitFor
  simp only [Nat.pow_eq]
  split
  · exact ⟨1, "KB", by decide, rfl, h, fun _ => ⟨by decide, by decide, ‹_›⟩⟩
  · split
    · exact ⟨2, "MB", by decide, rfl, Nat.not_lt.mp ‹_›, fun _ => ⟨by decide, by decide, ‹_›⟩⟩
    · split
      · exact ⟨3, "GB", by decide, rfl, Nat.not_lt.mp ‹_›, fun _ => ⟨by decide, by decide, ‹_›⟩⟩
      · exact ⟨4, "TB", by decide, rfl, Nat.not_lt.mp ‹_›, fun hlast => absurd rfl hlast⟩

theorem nearNext_iff {n k : Nat} (hk : 1 ≤ k ∧ k ≤ 3) (hlow : 1024 ^ k ≤ n) (hhigh : n < 1024 ^ (k + 1)) :
    NearNext n ↔ 20479 * 1024 ^ k ≤ 20 * n := by
  constructor
  · rintro ⟨j, hj, hj3, hnear, hnext⟩
    -- only one unit is at most the size and has the size below the next
    have hjk : j = k := by
      obtain ⟨rfl | rfl | rfl, rfl | rfl | rfl⟩ :
          (j = 1 ∨ j = 2 ∨ j = 3) ∧ (k = 1 ∨ k = 2 ∨ k = 3) := by omega
      all_goals omega
    rw [hjk] at hnear
    exact_mod_cast hnear
  · intro hnear
    exact ⟨k, hk.1, hk.2, by exact_mod_cast hnear, by exact_mod_cast hhigh⟩

theorem render_eq {n : Nat} (h : 1024 ≤ n) :
    render n =
      if limit ≤ roundToBits n then .error .tooLarge
      else .ok (shown (roundDiv (10 * roundToBits n) (unitFor (roundToBits n)).2) (unitFor (roundToBits n)).1) := by
  rw [render, if_neg (by omega), Int.toNat_natCast]
  rfl

theorem exists_shown {n : Nat} (hn : 1024 ≤ n) (hsmall : ¬ limit ≤ roundToBits n) :
    ∃ k unit tenths, render n = .ok (shown tenths unit) ∧ (k, unit) ∈ units ∧ 10 ≤ tenths ∧
      (unit ≠ "TB" → 2 * |10 * (n : Int) - tenths * 1024 ^ k| ≤ 1024 ^ k ∧ tenths ≤ 10240 ∧
        (tenths < 10240 ↔ ¬ NearNext n)) := by
  have hrounded : 1024 ≤ roundToBits n := by
    rcases Nat.lt_or_ge n (2 ^ 53) with h | h
    · rwa [roundToBits_eq_self h]
    · exact Nat.le_trans (by decide) (le_roundToBits h)
  obtain ⟨k, unit, hunit, hfor, hlow, hhigh⟩ := unitFor_spec hrounded
  rw [render_eq hn, if_neg hsmall, hfor]
  refine ⟨k, unit, _, rfl, hunit, ten_le_tenths hlow, fun hlast => ?_⟩
  obtain ⟨hk, hk3, hhigh⟩ := hhigh hlast
  -- sizes in all units but the last have fewer than 53 bits
  have hexact : roundToBits n = n := by
    refine roundToBits_eq_self (Nat.not_le.mp fun h => ?_)
    have hbig := le_roundToBits h
    have hnext : 1024 ^ (k + 1) ≤ 1024 ^ 4 := Nat.pow_le_pow_right (by decide) (by omega)
    omega
  rw [hexact] at hlow hhigh ⊢
  obtain ⟨hmost, hbelow⟩ := tenths_lt_iff hhigh
  exact ⟨tenths_nearest n k, hmost, hbelow.trans (nearNext_iff ⟨hk, hk3⟩ hlow hhigh).not.symm⟩

/-- **Less than 1024 of a unit is shown, but just below the next one.** Every size that is not too large is shown in
tenths of a unit. These are at least 10, and the nearest to the size; in all units but the last there are fewer than
10240 of them, but for sizes that round up to the next unit, which are shown as 10240. -/
theorem render_inUnit (size : Int) (hsize : 1024 ≤ size) :
    (render size = .error .tooLarge ↔ 2 ^ 1024 - 2 ^ 970 ≤ size) ∧
      (size < 2 ^ 1024 - 2 ^ 970 → ∃ tenths unit, render size = .ok (shown tenths unit)) ∧
      ∀ tenths unit, render size = .ok (shown tenths unit) →
        ∃ k, (k, unit) ∈ units ∧ 10 ≤ tenths ∧
          (unit ≠ "TB" → 2 * |10 * size - tenths * 1024 ^ k| ≤ 1024 ^ k ∧ tenths ≤ 10240 ∧
            (tenths < 10240 ↔ ¬ NearNext size)) := by
  obtain ⟨n, rfl⟩ := Int.eq_ofNat_of_zero_le (show 0 ≤ size by omega)
  have hn : 1024 ≤ n := by exact_mod_cast hsize
  have hlarge : limit ≤ roundToBits n → render n = .error .tooLarge := fun h => by rw [render_eq hn, if_pos h]
  rw [← Int.not_le, ← limit_le_iff]
  refine ⟨⟨fun h => ?_, hlarge⟩, fun hsmall => ?_, fun tenths unit h => ?_⟩
  · by_contra hsmall
    obtain ⟨-, unit, tenths, hshown, -⟩ := exists_shown hn hsmall
    cases hshown.symm.trans h
  · obtain ⟨-, unit, tenths, hshown, -⟩ := exists_shown hn hsmall
    exact ⟨tenths, unit, hshown⟩
  · have hsmall : ¬ limit ≤ roundToBits n := fun hle => nomatch (hlarge hle).symm.trans h
    obtain ⟨k, other, others, hshown, hspec⟩ := exists_shown hn hsmall
    obtain ⟨rfl, rfl⟩ := shown_inj (Except.ok.inj (h.symm.trans hshown))
    exact ⟨k, hspec⟩

theorem render_inUnit_kilobytes :
    1024 ≤ (1048524 : Int) ∧ render 1048524 = .ok (shown 10239 "KB") ∧ shown 10239 "KB" = "1023.9 KB" ∧
      ¬ NearNext 1048524 := by
  have hsize : 1024 ≤ (1048524 : Int) := by decide
  have hrender : render 1048524 = .ok (shown 10239 "KB") := by decide +kernel
  obtain ⟨k, -, -, hnear⟩ := (render_inUnit 1048524 hsize).2.2 10239 "KB" hrender
  exact ⟨hsize, hrender, by decide +kernel, (hnear (by decide)).2.2.mp (by decide)⟩

/-- One byte less than a megabyte is shown as 1024.0 KB. -/
theorem not_forall_shown_below :
    ¬ ∀ (size : Int) (tenths : Nat) (unit : String), 1024 ≤ size → render size = .ok (shown tenths unit) →
      unit ≠ "TB" → 10 ≤ tenths ∧ tenths < 10240 := by
  intro h
  have hrender : render 1048575 = .ok (shown 10240 "KB") := by decide +kernel
  exact absurd (h 1048575 10240 "KB" (by decide) hrender (by decide)).2 (by decide)

end XmlShape.Size
