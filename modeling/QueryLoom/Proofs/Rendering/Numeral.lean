/-
  QueryLoom/Proofs/Rendering/Numeral.lean
  =======================================
  **Numbers are lexed as one token.**  The text of a number without its sign is digits, then maybe
  a point and more digits, then maybe an exponent.

    * `isNumeral_nat`, `isNumeral_decimal`, `isNumeral_binary` — for every kind of number.
-/
import QueryLoom.Number.Shortest
import QueryLoom.Proofs.Rendering.Lexing
import QueryLoom.Proofs.Text.Digits

namespace QueryLoom.Sql

namespace Lexical

namespace Numeral

variable {cs ds : List Char} {n m k : Numeral}

theorem after?_append (h : n.after? cs = some m) : n.after? (cs ++ ds) = m.after? ds := by
  rw [after?, List.foldlM_append]
  exact congrArg (· >>= _) h

/-- Where digits are read more digits are. -/
theorem after?_digits (hn : n ≠ .start) (hn' : n ≠ .exponent) (h : ∀ c ∈ ds, c.isDigit = true) :
    n.after? ds = some n := by
  induction ds with
  | nil => rfl
  | cons c ds ih =>
    obtain ⟨hc, hrest⟩ := List.forall_mem_cons.mp h
    have hnext : n.next? c = some n := by
      cases n with
      | start | exponent => contradiction
      | whole | fraction | power => simp [next?, hc]
    rw [after?, List.foldlM_cons, hnext]
    exact ih hrest

theorem after?_start (hne : ds ≠ []) (h : ∀ c ∈ ds, c.isDigit = true) :
    start.after? ds = some whole := by
  cases ds with
  | nil => contradiction
  | cons c ds =>
    obtain ⟨hc, hrest⟩ := List.forall_mem_cons.mp h
    have hnext : start.next? c = some whole := by simp [next?, hc]
    rw [after?, List.foldlM_cons, hnext]
    exact after?_digits (by simp) (by simp) hrest

/-- A point and digits after a whole number. -/
theorem after?_point (h : ∀ c ∈ ds, c.isDigit = true) :
    whole.after? ('.' :: ds) = some fraction := by
  have hnext : whole.next? '.' = some fraction := rfl
  rw [after?, List.foldlM_cons, hnext]
  exact after?_digits (by simp) (by simp) h

end Numeral

open Numeral

theorem isNumeral_of_after? {text : String} {n : Numeral} (hn : n ≠ .start)
    (h : start.after? text.toList = some n) : isNumeral text = true := by
  have hne : text.isEmpty = false := by
    refine Bool.eq_false_iff.2 fun hempty => ?_
    obtain rfl : text = "" := by simpa using hempty
    exact hn (Option.some.inj h).symm
  simp [isNumeral, h, hne]

theorem isDigit_of_mem_zeros {n : Nat} : ∀ c ∈ List.replicate n '0', c.isDigit = true := by
  intro c hc
  rw [List.eq_of_mem_replicate hc]
  rfl

theorem isNumeral_nat (n : Nat) : isNumeral (toString n) = true := by
  refine isNumeral_of_after? (n := .whole) (by simp) ?_
  exact after?_start (Text.toList_toString_ne_nil n) fun _ => Text.isDigit_of_mem_toString

/-- Digits with a point between them. -/
theorem isNumeral_of_point {text : String} {whole rest : List Char}
    (htext : text.toList = whole ++ '.' :: rest) (hne : whole ≠ [])
    (hwhole : ∀ c ∈ whole, c.isDigit = true) (hrest : ∀ c ∈ rest, c.isDigit = true) :
    isNumeral text = true := by
  refine isNumeral_of_after? (n := .fraction) (by simp) ?_
  rw [htext, after?_append (after?_start hne hwhole), after?_point hrest]

theorem isNumeral_decimal (d : Number.Decimal) (hd : d.negative = false) :
    isNumeral d.write = true := by
  rcases d with ⟨negative, mantissa, scale⟩
  obtain rfl : negative = false := hd
  simp only [Number.Decimal.write, Bool.false_eq_true, if_false]
  generalize hds : List.replicate (scale + 1 - (Nat.toDigits 10 mantissa).length) '0'
    ++ Nat.toDigits 10 mantissa = ds
  have hdigits : ∀ c ∈ ds, c.isDigit = true := by
    rw [← hds]
    exact List.forall_mem_append.mpr
      ⟨isDigit_of_mem_zeros, fun _ => Nat.isDigit_of_mem_toDigits (by decide) (by decide)⟩
  have hlength : scale < ds.length := by
    rw [← hds, List.length_append, List.length_replicate]
    omega
  have hne : ds.take (ds.length - scale) ≠ [] := by
    intro hnil
    have hzero := congrArg List.length hnil
    rw [List.length_take, List.length_nil] at hzero
    omega
  have hwhole : ∀ c ∈ ds.take (ds.length - scale), c.isDigit = true :=
    fun c hc => hdigits c (List.mem_of_mem_take hc)
  have hrest : ∀ c ∈ ds.drop (ds.length - scale), c.isDigit = true :=
    fun c hc => hdigits c (List.mem_of_mem_drop hc)
  split
  · refine isNumeral_of_after? (n := .whole) (by simp) ?_
    simpa using after?_start hne hwhole
  · exact isNumeral_of_point (by simp) hne hwhole hrest

/-- A whole number, maybe with a fraction, and an exponent with its sign or without one. -/
theorem after?_exponent {cs : List Char} {n : Numeral} (hn : n = .whole ∨ n = .fraction)
    (h : start.after? cs = some n) (i : Int) :
    start.after? (cs ++ 'e' :: (toString i).toList) = some .power := by
  have hexponent : n.next? 'e' = some .exponent := by
    rcases hn with rfl | rfl <;> rfl
  rw [after?_append h, after?, List.foldlM_cons, hexponent]
  have hpower : ∀ m : Nat, Numeral.power.after? (toString m).toList = some .power := fun m =>
    after?_digits (by simp) (by simp) fun _ => Text.isDigit_of_mem_toString
  cases i with
  | ofNat m =>
    have hspelled : (toString (Int.ofNat m)).toList = (toString m).toList := rfl
    have hdigits : ∀ c ∈ (toString m).toList, c.isDigit = true :=
      fun _ => Text.isDigit_of_mem_toString
    rw [hspelled]
    cases hcs : (toString m).toList with
    | nil => exact absurd hcs (Text.toList_toString_ne_nil m)
    | cons c ds =>
      rw [hcs] at hdigits
      obtain ⟨hc, hrest⟩ := List.forall_mem_cons.mp hdigits
      have hnext : Numeral.exponent.next? c = some .power := by simp [next?, hc]
      show Numeral.exponent.after? (c :: ds) = some .power
      rw [after?, List.foldlM_cons, hnext]
      exact after?_digits (by simp) (by simp) hrest
  | negSucc m =>
    have hspelled : (toString (Int.negSucc m)).toList = '-' :: (toString (m + 1)).toList := by
      have htext : toString (Int.negSucc m) = "-" ++ toString (m + 1) := rfl
      rw [htext, String.toList_append]
      rfl
    rw [hspelled]
    exact hpower (m + 1)

/-- A floating-point number as statements have it is read as one number. -/
theorem isNumeral_layout (x : Number.Scientific) :
    isNumeral (Number.plainLayout.decimal x) = true := by
  have hdigits : ∀ c ∈ Nat.toDigits 10 x.digits, c.isDigit = true :=
    fun _ => Nat.isDigit_of_mem_toDigits (by decide) (by decide)
  have hne : Nat.toDigits 10 x.digits ≠ [] := Nat.toDigits_ne_nil
  simp only [Number.Layout.decimal]
  generalize Nat.toDigits 10 x.digits = ds at hdigits hne
  split
  · refine isNumeral_of_after? (n := .power) (by simp) ?_
    rcases ds with _ | ⟨d, _ | ⟨e, rest⟩⟩
    · exact absurd rfl hne
    · have hfirst : start.after? [d] = some .whole := after?_start (by simp) hdigits
      simpa [Number.plainLayout] using after?_exponent (.inl rfl) hfirst (x.exponent + 1 - 1)
    · obtain ⟨hd, hrest⟩ := List.forall_mem_cons.mp hdigits
      have hfirst : start.after? [d] = some .whole :=
        after?_start (by simp) (List.forall_mem_singleton.mpr hd)
      have hmantissa : start.after? (d :: '.' :: e :: rest) = some .fraction :=
        (after?_append hfirst).trans (after?_point hrest)
      have hpower := after?_exponent (.inr rfl) hmantissa
        (x.exponent + (d :: e :: rest).length - 1)
      simpa [Number.plainLayout] using hpower
  · split
    · have hzeros : ∀ c ∈ ds ++ List.replicate x.exponent.toNat '0', c.isDigit = true :=
        List.forall_mem_append.mpr ⟨hdigits, isDigit_of_mem_zeros⟩
      have hrest : ∀ c ∈ ['0'], c.isDigit = true := by simp
      exact isNumeral_of_point (by simp) (by simp [hne]) hzeros hrest
    · split
      · rename_i htop
        refine isNumeral_of_point (String.toList_ofList) ?_
          (fun c hc => hdigits c (List.mem_of_mem_take hc))
          (fun c hc => hdigits c (List.mem_of_mem_drop hc))
        intro hnil
        have hlength : 0 < ds.length := List.length_pos_iff.mpr hne
        have hzero := congrArg List.length hnil
        rw [List.length_take, List.length_nil] at hzero
        omega
      · have hrest : ∀ c ∈ List.replicate (-(x.exponent + ds.length - 1) - 1).toNat '0' ++ ds,
            c.isDigit = true :=
          List.forall_mem_append.mpr ⟨isDigit_of_mem_zeros, hdigits⟩
        have hwhole : ∀ c ∈ ['0'], c.isDigit = true := by simp
        exact isNumeral_of_point (by simp) (by simp) hwhole hrest

theorem isNumeral_binary {f : Number.BinaryFormat} (x : Number.Binary f)
    (hx : x.isFinite = true) (hnegative : x.negative = false) :
    isNumeral (x.write Number.plainLayout) = true := by
  rcases x with ⟨negative, magnitude⟩
  obtain rfl : negative = false := hnegative
  cases magnitude with
  | infinite | notANumber => cases hx
  | finite m e =>
    have hwrite : (Number.Binary.write Number.plainLayout (f := f) ⟨false, .finite m e⟩)
        = if m = 0 then "0.0" else Number.plainLayout.decimal (Number.shortest f m e) := by
      simp [Number.Binary.write]
    rw [hwrite]
    split
    · decide
    · exact isNumeral_layout _

end Lexical

end QueryLoom.Sql
