import TreeLint.Text.Utf8

/-! Reading back what was written. Each character is written with the bytes that its size asks for,
and reading these bytes gives the character, so every text can be read from its bytes. -/

namespace TreeLint.Text.Utf8

theorem decodeFrom_begin {b : UInt8} {p : Pending} (position : Nat) (done : List Char)
    (rest : List UInt8) (large : 0x80 ≤ b.toNat) (begun : begun? b = some p) :
    decodeFrom position done none (b :: rest) = decodeFrom (position + 1) done (some p) rest := by
  rw [decodeFrom, if_neg (by omega), begun]

theorem decodeFrom_go_on {b : UInt8} {p : Pending} (position : Nat) (done : List Char)
    (rest : List UInt8) (low : p.low ≤ b.toNat) (high : b.toNat ≤ p.high) (more : 1 < p.more) :
    decodeFrom position done (some p) (b :: rest) =
      decodeFrom (position + 1) done (some (p.next b)) rest := by
  have inside : (p.low ≤ b.toNat && b.toNat ≤ p.high) = true := by simp [low, high]
  have unfinished : (p.next b).more ≠ 0 := by
    simp only [Pending.next]
    omega
  rw [decodeFrom, if_pos inside]
  exact if_neg unfinished

theorem decodeFrom_finish {b : UInt8} {p : Pending} (position : Nat) (done : List Char)
    (rest : List UInt8) (low : p.low ≤ b.toNat) (high : b.toNat ≤ p.high) (more : p.more = 1) :
    decodeFrom position done (some p) (b :: rest) =
      decodeFrom (position + 1) (Char.ofNat (p.bits * 64 + (b.toNat - 0x80)) :: done) none rest := by
  have inside : (p.low ≤ b.toNat && b.toNat ≤ p.high) = true := by simp [low, high]
  have finished : (p.next b).more = 0 := by
    simp only [Pending.next]
    omega
  rw [decodeFrom, if_pos inside]
  exact if_pos finished

theorem toNat_ofNat {n : Nat} (small : n < 256) : (UInt8.ofNat n).toNat = n := by
  rw [UInt8.toNat_ofNat', Nat.mod_eq_of_lt small]

theorem begun_two {b : UInt8} (low : 0xC2 ≤ b.toNat) (high : b.toNat < 0xE0) :
    begun? b = some ⟨b, 1, b.toNat - 0xC0, 1, 0x80, 0xBF⟩ := by
  unfold begun?
  simp only [if_neg (show ¬ b.toNat < 0xC2 by omega), if_pos high]

theorem begun_three {b : UInt8} (low : 0xE0 ≤ b.toNat) (high : b.toNat < 0xF0) :
    begun? b = some ⟨b, 1, b.toNat - 0xE0, 2, if b.toNat = 0xE0 then 0xA0 else 0x80,
      if b.toNat = 0xED then 0x9F else 0xBF⟩ := by
  unfold begun?
  simp only [if_neg (show ¬ b.toNat < 0xC2 by omega), if_neg (show ¬ b.toNat < 0xE0 by omega),
    if_pos high]

theorem begun_four {b : UInt8} (low : 0xF0 ≤ b.toNat) (high : b.toNat < 0xF5) :
    begun? b = some ⟨b, 1, b.toNat - 0xF0, 3, if b.toNat = 0xF0 then 0x90 else 0x80,
      if b.toNat = 0xF4 then 0x8F else 0xBF⟩ := by
  unfold begun?
  simp only [if_neg (show ¬ b.toNat < 0xC2 by omega), if_neg (show ¬ b.toNat < 0xE0 by omega),
    if_neg (show ¬ b.toNat < 0xF0 by omega), if_pos high]

variable (position : Nat) (done : List Char) (rest : List UInt8)

theorem decodeFrom_two {n : Nat} (low : 0x80 ≤ n) (high : n < 0x800) :
    decodeFrom position done none
        (UInt8.ofNat (0xC0 + n / 64) :: UInt8.ofNat (0x80 + n % 64) :: rest) =
      decodeFrom (position + 2) (Char.ofNat n :: done) none rest := by
  have first := toNat_ofNat (show 0xC0 + n / 64 < 256 by omega)
  have last := toNat_ofNat (show 0x80 + n % 64 < 256 by omega)
  have whole : (0xC0 + n / 64 - 0xC0) * 64 + (0x80 + n % 64 - 0x80) = n := by omega
  rw [decodeFrom_begin _ _ _ (by omega) (begun_two (by omega) (by omega))]
  rw [decodeFrom_finish _ _ _ (by simp only; omega) (by simp only; omega) rfl]
  simp only [first, last, whole]

theorem decodeFrom_three {n : Nat} (low : 0x800 ≤ n) (high : n < 0x10000)
    (valid : n < 0xD800 ∨ 0xDFFF < n) :
    decodeFrom position done none (UInt8.ofNat (0xE0 + n / 4096) ::
        UInt8.ofNat (0x80 + n / 64 % 64) :: UInt8.ofNat (0x80 + n % 64) :: rest) =
      decodeFrom (position + 3) (Char.ofNat n :: done) none rest := by
  have first := toNat_ofNat (show 0xE0 + n / 4096 < 256 by omega)
  have second := toNat_ofNat (show 0x80 + n / 64 % 64 < 256 by omega)
  have last := toNat_ofNat (show 0x80 + n % 64 < 256 by omega)
  have whole : ((0xE0 + n / 4096 - 0xE0) * 64 + (0x80 + n / 64 % 64 - 0x80)) * 64 +
      (0x80 + n % 64 - 0x80) = n := by omega
  rw [decodeFrom_begin _ _ _ (by omega) (begun_three (by omega) (by omega))]
  rw [decodeFrom_go_on _ _ _ (by simp only [first, second]; split <;> omega)
    (by simp only [first, second]; split <;> omega) (by simp only; omega)]
  rw [decodeFrom_finish _ _ _ (by simp only [Pending.next]; omega)
    (by simp only [Pending.next]; omega) rfl]
  simp only [Pending.next, first, second, last, whole]

theorem decodeFrom_four {n : Nat} (low : 0x10000 ≤ n) (high : n < 0x110000) :
    decodeFrom position done none (UInt8.ofNat (0xF0 + n / 262144) ::
        UInt8.ofNat (0x80 + n / 4096 % 64) :: UInt8.ofNat (0x80 + n / 64 % 64) ::
        UInt8.ofNat (0x80 + n % 64) :: rest) =
      decodeFrom (position + 4) (Char.ofNat n :: done) none rest := by
  have first := toNat_ofNat (show 0xF0 + n / 262144 < 256 by omega)
  have second := toNat_ofNat (show 0x80 + n / 4096 % 64 < 256 by omega)
  have third := toNat_ofNat (show 0x80 + n / 64 % 64 < 256 by omega)
  have last := toNat_ofNat (show 0x80 + n % 64 < 256 by omega)
  have whole : (((0xF0 + n / 262144 - 0xF0) * 64 + (0x80 + n / 4096 % 64 - 0x80)) * 64 +
      (0x80 + n / 64 % 64 - 0x80)) * 64 + (0x80 + n % 64 - 0x80) = n := by omega
  rw [decodeFrom_begin _ _ _ (by omega) (begun_four (by omega) (by omega))]
  rw [decodeFrom_go_on _ _ _ (by simp only [first, second]; split <;> omega)
    (by simp only [first, second]; split <;> omega) (by simp only; omega)]
  rw [decodeFrom_go_on _ _ _ (by simp only [Pending.next]; omega)
    (by simp only [Pending.next]; omega) (by simp only [Pending.next]; omega)]
  rw [decodeFrom_finish _ _ _ (by simp only [Pending.next]; omega)
    (by simp only [Pending.next]; omega) rfl]
  simp only [Pending.next, first, second, third, last, whole]

/-- The bytes of a character are read as the character. -/
theorem decodeFrom_encodeChar (c : Char) :
    decodeFrom position done none (encodeChar c ++ rest) =
      decodeFrom (position + (encodeChar c).length) (c :: done) none rest := by
  have valid : c.toNat < 0xD800 ∨ 0xDFFF < c.toNat ∧ c.toNat < 0x110000 := c.valid
  have back : Char.ofNat c.toNat = c := Char.ofNat_toNat c
  unfold encodeChar
  generalize c.toNat = n at valid back
  subst back
  dsimp only
  split
  · rename_i small
    have first := toNat_ofNat (show n < 256 by omega)
    rw [List.singleton_append, decodeFrom, first, if_pos small, List.length_singleton]
  · split
    · exact decodeFrom_two position done rest (by omega) (by omega)
    · split
      · exact decodeFrom_three position done rest (by omega) (by omega) (by omega)
      · exact decodeFrom_four position done rest (by omega) (by omega)

theorem decodeFrom_encode (cs : List Char) :
    decodeFrom position done none (encode cs) = .ok (done.reverse ++ cs) := by
  induction cs generalizing position done with
  | nil => simp [encode, decodeFrom]
  | cons c cs ih =>
    have next := ih (position + (encodeChar c).length) (c :: done)
    rw [encode, List.flatMap_cons, decodeFrom_encodeChar]
    rw [encode] at next
    rw [next, List.reverse_cons, List.append_assoc, List.singleton_append]

/-- What is read from the bytes of a text is the text. -/
theorem decode_encode (cs : List Char) : decode (encode cs) = .ok cs :=
  decodeFrom_encode 0 [] cs

theorem encode_injective {cs ds : List Char} (same : encode cs = encode ds) : cs = ds := by
  have read := decode_encode cs
  rw [same, decode_encode ds] at read
  exact (Except.ok.inj read).symm

end TreeLint.Text.Utf8
