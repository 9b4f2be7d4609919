import SigOps.Proofs.Signature.Der

namespace SigOps.Der

theorem decode_eq_ok_iff {mode : Mode} {bytes : Bytes} {pair : Pair} :
    decode mode bytes = .ok pair ↔ decode? mode bytes = some pair := by
  unfold decode
  cases decode? mode bytes with
  | none => simp
  | some found => simp

-- A grammar that a reader decides is unambiguous.
theorem contents_unique {found : Option (Bytes × Bytes)} {Contents : Bytes → Bytes → Prop}
    (hfound : ∀ r s, found = some (r, s) ↔ Contents r s) {r s r' s' : Bytes}
    (hcontents : Contents r s) (hother : Contents r' s') : r' = r ∧ s' = s := by
  have hsame := ((hfound r' s').mpr hother).symm.trans ((hfound r s).mpr hcontents)
  rwa [Option.some.injEq, Prod.mk.injEq] at hsame

-- A tag, the length of a content in one of its spellings, and the content. The two readers differ
-- in the spellings of a length, in what they ask of the contents, and in whether the sequence has
-- to end where it says.
inductive Element (Spells : Nat → Bytes → Prop) (tag : UInt8) (body : Bytes) : Bytes → Prop where
  | intro {length : Bytes} (hlength : Spells body.length length) :
      Element Spells tag body (tag :: (length ++ body))

-- The digits of a length, after their number.
def counted (digits : Bytes) : Bytes := UInt8.ofNat (0x80 + digits.length) :: digits

-- The first byte of a length is the length, or the number of its digits.
theorem short_or_count (first : UInt8) :
    (∃ length < 0x80, first = UInt8.ofNat length) ∨
      ∃ count < 0x80, first = UInt8.ofNat (0x80 + count) := by
  have hlt := first.toNat_lt
  rcases Nat.lt_or_ge first.toNat 0x80 with hshort | hlong
  · exact .inl ⟨first.toNat, hshort, UInt8.ofNat_toNat.symm⟩
  · refine .inr ⟨first.toNat - 0x80, by omega, ?_⟩
    rw [Nat.add_sub_of_le hlong, UInt8.ofNat_toNat]

theorem toNat_count {count : Nat} (hcount : count < 0x80) :
    (UInt8.ofNat (0x80 + count)).toNat = 0x80 + count := by
  rw [UInt8.toNat_ofNat']
  omega

theorem count_set {count : Nat} (hcount : count < 0x80) :
    UInt8.ofNat (0x80 + count) &&& 0x80 ≠ 0 := by
  rw [ne_eq, Bytes.topBit_clear_iff, toNat_count hcount]
  omega

theorem Element.length_le {Spells : Nat → Bytes → Prop} {tag : UInt8} {body bytes : Bytes}
    (helement : Element Spells tag body bytes) : body.length ≤ bytes.length := by
  cases helement with
  | intro hlength =>
      rw [List.length_cons, List.length_append]
      omega

namespace Lax

-- The length of an integer. There may be zeros before its digits, of which up to seven count.
inductive Length : Nat → Bytes → Prop where
  | short {length : Nat} (hshort : length < 0x80) : Length length [UInt8.ofNat length]
  | long {digits : Bytes} (hcount : digits.length < 0x80) (hfits : digits.toNatBE < 256 ^ 7) :
      Length digits.toNatBE (counted digits)

-- The length of the sequence, which nothing is compared with.
inductive AnyLength : Bytes → Prop where
  | short {length : Nat} (hshort : length < 0x80) : AnyLength [UInt8.ofNat length]
  | long {digits : Bytes} (hcount : digits.length < 0x80) : AnyLength (counted digits)

-- A sequence of two integers with these contents, and bytes after it.
inductive Layout (r s : Bytes) : Bytes → Prop where
  | intro {length first second : Bytes} (after : Bytes) (hlength : AnyLength length)
      (hr : Element Length integerTag r first) (hs : Element Length integerTag s second) :
      Layout r s (sequenceTag :: (length ++ (first ++ (second ++ after))))

variable {length : Nat} {spelled bytes body digits after r s : Bytes}

theorem skipLength?_count {count : Nat} (hcount : count < 0x80) (rest : Bytes) :
    skipLength? (UInt8.ofNat (0x80 + count) :: rest) = (rest.split? count).map Prod.snd := by
  rw [skipLength?, if_neg (count_set hcount), toNat_count hcount, Nat.add_sub_cancel_left]

-- Seven digits and any number of zeros before them make a number below 2⁵⁶.
theorem readLength?_count {count : Nat} (hcount : count < 0x80) (rest : Bytes) :
    readLength? (UInt8.ofNat (0x80 + count) :: rest) =
      (rest.split? count).bind fun parts =>
        if parts.1.toNatBE < 256 ^ 7 then some (parts.1.toNatBE, parts.2) else none := by
  rw [readLength?, if_neg (count_set hcount), toNat_count hcount, Nat.add_sub_cancel_left]
  congr 1
  funext parts
  obtain ⟨digits, body⟩ := parts
  have hfits : 8 ≤ (Bytes.ofNatBE digits.toNatBE).length ↔ ¬digits.toNatBE < 256 ^ 7 := by
    rw [← Bytes.length_ofNatBE_le_iff]
    omega
  simp only [Bytes.dropWhile_zero_eq, Bytes.toNatBE_ofNatBE, hfits, ite_not]

theorem AnyLength.skip (hspelled : AnyLength spelled) (body : Bytes) :
    skipLength? (spelled ++ body) = some body := by
  cases hspelled with
  | short hshort => exact skipLength?_short hshort body
  | long hcount =>
      rw [counted, List.cons_append, skipLength?_count hcount, Bytes.split?_length_append]
      rfl

theorem exists_anyLength (hskip : skipLength? bytes = some body) :
    ∃ spelled, AnyLength spelled ∧ bytes = spelled ++ body := by
  cases bytes with
  | nil => cases hskip
  | cons first rest =>
      rcases short_or_count first with ⟨length, hshort, rfl⟩ | ⟨count, hcount, rfl⟩
      · rw [skipLength?_short hshort] at hskip
        cases hskip
        exact ⟨_, .short hshort, rfl⟩
      · rw [skipLength?_count hcount, Option.map_eq_some_iff] at hskip
        obtain ⟨⟨digits, _⟩, hsplit, rfl⟩ := hskip
        obtain ⟨rfl, rfl⟩ := Bytes.split?_eq_some_iff.mp hsplit
        exact ⟨_, .long hcount, rfl⟩

theorem Length.read (hspelled : Length length spelled) (body : Bytes) :
    readLength? (spelled ++ body) = some (length, body) := by
  cases hspelled with
  | short hshort => exact readLength?_short hshort body
  | long hcount hfits =>
      rw [counted, List.cons_append, readLength?_count hcount, Bytes.split?_length_append]
      simp only [Option.bind_some, if_pos hfits]

theorem exists_length (hread : readLength? bytes = some (length, body)) :
    ∃ spelled, Length length spelled ∧ bytes = spelled ++ body := by
  cases bytes with
  | nil => cases hread
  | cons first rest =>
      rcases short_or_count first with ⟨length, hshort, rfl⟩ | ⟨count, hcount, rfl⟩
      · rw [readLength?_short hshort] at hread
        cases hread
        exact ⟨_, .short hshort, rfl⟩
      · rw [readLength?_count hcount] at hread
        obtain ⟨⟨digits, _⟩, hsplit, hdigits⟩ := Option.bind_eq_some_iff.mp hread
        obtain ⟨rfl, rfl⟩ := Bytes.split?_eq_some_iff.mp hsplit
        rw [Option.ite_none_right_eq_some, Option.some.injEq, Prod.mk.injEq] at hdigits
        obtain ⟨hfits, rfl, rfl⟩ := hdigits
        exact ⟨_, .long hcount hfits, rfl⟩

theorem readInteger?_eq_some_iff :
    readInteger? bytes = some (digits, after) ↔
      ∃ integer, Element Length integerTag digits integer ∧ bytes = integer ++ after := by
  constructor
  · intro hread
    cases bytes with
    | nil => cases hread
    | cons tag rest =>
        rw [readInteger?, Option.ite_none_right_eq_some] at hread
        obtain ⟨rfl, hread⟩ := hread
        obtain ⟨⟨length, body⟩, hlength, hsplit⟩ := Option.bind_eq_some_iff.mp hread
        obtain ⟨spelled, hspelled, rfl⟩ := exists_length hlength
        obtain ⟨rfl, rfl⟩ := Bytes.split?_eq_some_iff.mp hsplit
        exact ⟨_, .intro hspelled, by simp⟩
  · rintro ⟨_, ⟨hspelled⟩, rfl⟩
    rw [List.cons_append, List.append_assoc, readInteger?, if_pos rfl, hspelled.read]
    exact Bytes.split?_length_append digits after

theorem readIntegers?_eq_some_iff : readIntegers? bytes = some (r, s) ↔ Layout r s bytes := by
  constructor
  · intro hread
    cases bytes with
    | nil => cases hread
    | cons tag rest =>
        rw [readIntegers?, Option.ite_none_right_eq_some] at hread
        obtain ⟨rfl, hread⟩ := hread
        obtain ⟨body, hskip, hread⟩ := Option.bind_eq_some_iff.mp hread
        obtain ⟨⟨_, afterR⟩, hr, hread⟩ := Option.bind_eq_some_iff.mp hread
        obtain ⟨⟨_, afterS⟩, hs, hread⟩ := Option.bind_eq_some_iff.mp hread
        cases hread
        obtain ⟨length, hlength, rfl⟩ := exists_anyLength hskip
        obtain ⟨first, hfirst, rfl⟩ := readInteger?_eq_some_iff.mp hr
        obtain ⟨second, hsecond, rfl⟩ := readInteger?_eq_some_iff.mp hs
        exact .intro afterS hlength hfirst hsecond
  · rintro ⟨after, hlength, hr, hs⟩
    simp only [readIntegers?, if_pos, hlength.skip, readInteger?_eq_some_iff.mpr ⟨_, hr, rfl⟩,
      readInteger?_eq_some_iff.mpr ⟨_, hs, rfl⟩, Option.bind_eq_bind, Option.bind_some]

theorem Layout.unique {r' s' : Bytes} (hlayout : Layout r s bytes) (hother : Layout r' s' bytes) :
    r' = r ∧ s' = s :=
  contents_unique (fun _ _ => readIntegers?_eq_some_iff) hlayout hother

-- What follows the second integer is not looked at.
theorem Layout.append (hlayout : Layout r s bytes) (suffix : Bytes) :
    Layout r s (bytes ++ suffix) := by
  cases hlayout with
  | intro after hlength hr hs =>
      simp only [List.cons_append, List.append_assoc]
      exact .intro (after ++ suffix) hlength hr hs

-- The numbers that the contents of the integers are, without a sign.
def Spells (r s : Nat) (bytes : Bytes) : Prop :=
  ∃ contentR contentS, Layout contentR contentS bytes ∧ contentR.toNatBE = r ∧ contentS.toNatBE = s

theorem Spells.unique {r s r' s' : Nat} (hspells : Spells r s bytes) (hother : Spells r' s' bytes) :
    r' = r ∧ s' = s := by
  obtain ⟨_, _, hlayout, rfl, rfl⟩ := hspells
  obtain ⟨_, _, hother, rfl, rfl⟩ := hother
  obtain ⟨rfl, rfl⟩ := hlayout.unique hother
  exact ⟨rfl, rfl⟩

theorem decode_eq_ok_iff {pair : Pair} :
    decode .lax bytes = .ok pair ↔
      ∃ r s, Layout r s bytes ∧ pairOf r.toNatBE s.toNatBE = pair := by
  rw [Der.decode_eq_ok_iff, Der.decode?, decode?]
  simp only [Option.bind_eq_bind, Option.bind_eq_some_iff, readIntegers?_eq_some_iff, Prod.exists,
    Option.some.injEq]

end Lax

namespace Strict

-- A length in the fewest digits. Lengths below 128 have no other spelling.
inductive Length : Nat → Bytes → Prop where
  | short {length : Nat} (hshort : length < 0x80) : Length length [UInt8.ofNat length]
  | long {length : Nat} (hlong : 0x80 ≤ length) (hfits : length < 256 ^ 8) :
      Length length (counted (Bytes.ofNatBE length))

-- The content of an integer is not empty and could not be shorter.
def IsInteger (digits : Bytes) : Prop := digits ≠ [] ∧ isPadded digits = false

-- A sequence of two integers with these contents, and nothing after it.
inductive Layout (r s : Bytes) : Bytes → Prop where
  | intro {first second bytes : Bytes} (hr : Element Length integerTag r first)
      (hs : Element Length integerTag s second) (hintegerR : IsInteger r)
      (hintegerS : IsInteger s) (hsequence : Element Length sequenceTag (first ++ second) bytes) :
      Layout r s bytes

variable {length count : Nat} {spelled bytes body digits after r s : Bytes}

theorem readLongLength?_eq_some_iff :
    readLongLength? count bytes = some (length, body) ↔
      (Bytes.ofNatBE length).length = count ∧ 0x80 ≤ length ∧ length < 256 ^ 8 ∧
        length ≤ body.length ∧ bytes = Bytes.ofNatBE length ++ body := by
  constructor
  · intro hread
    obtain ⟨⟨digits, _⟩, hsplit, haccept⟩ := Option.bind_eq_some_iff.mp hread
    obtain ⟨rfl, rfl⟩ := Bytes.split?_eq_some_iff.mp hsplit
    simp only [Option.ite_none_left_eq_some, Option.some.injEq, Prod.mk.injEq, not_or] at haccept
    obtain ⟨haccepted, rfl, rfl⟩ := haccept
    obtain ⟨hcount, hhead, hlong, hbody⟩ := haccepted
    have hdigits := Bytes.ofNatBE_toNatBE hhead
    have hfits := (Bytes.length_ofNatBE_le_iff digits.toNatBE 8).mp (by rw [hdigits]; omega)
    rw [hdigits]
    exact ⟨rfl, by omega, hfits, by omega, rfl⟩
  · rintro ⟨rfl, hlong, hfits, hbody, rfl⟩
    have hcount := (Bytes.length_ofNatBE_le_iff length 8).mpr hfits
    have hhead := Bytes.head?_ofNatBE_ne_zero length
    rw [readLongLength?, Bytes.split?_length_append]
    simp only [Option.bind_eq_bind, Option.bind_some, Bytes.toNatBE_ofNatBE]
    rw [if_neg]
    simp only [not_or]
    exact ⟨by omega, hhead, by omega, by omega⟩

theorem readLength?_count (hcount : count < 0x80) (rest : Bytes) :
    readLength? (UInt8.ofNat (0x80 + count) :: rest) =
      if count = 0 ∨ count = 0x7f then none else readLongLength? count rest := by
  have hbyte (other : Nat) (hother : other < 0x80) :
      UInt8.ofNat (0x80 + count) = UInt8.ofNat (0x80 + other) ↔ count = other := by
    rw [← UInt8.toNat_inj, toNat_count hcount, toNat_count hother, Nat.add_left_cancel_iff]
  have hnone : UInt8.ofNat (0x80 + count) = 0x80 ↔ count = 0 := hbyte 0 (by omega)
  have hreserved : UInt8.ofNat (0x80 + count) = 0xff ↔ count = 0x7f := hbyte 0x7f (by omega)
  rw [readLength?, if_neg (count_set hcount), toNat_count hcount, Nat.add_sub_cancel_left]
  simp only [hnone, hreserved]

theorem Length.read (hspelled : Length length spelled) (hbody : length ≤ body.length) :
    readLength? (spelled ++ body) = some (length, body) := by
  cases hspelled with
  | short hshort => exact readLength?_short hshort body
  | long hlong hfits =>
      have hcount := (Bytes.length_ofNatBE_le_iff length 8).mpr hfits
      have hdigits := Bytes.length_ofNatBE_le_iff length 0
      rw [counted, List.cons_append, readLength?_count (by omega), if_neg (by omega),
        readLongLength?_eq_some_iff]
      exact ⟨rfl, hlong, hfits, hbody, rfl⟩

theorem exists_length (hread : readLength? bytes = some (length, body)) :
    ∃ spelled, Length length spelled ∧ bytes = spelled ++ body := by
  cases bytes with
  | nil => cases hread
  | cons first rest =>
      rcases short_or_count first with ⟨length, hshort, rfl⟩ | ⟨count, hcount, rfl⟩
      · rw [readLength?_short hshort] at hread
        cases hread
        exact ⟨_, .short hshort, rfl⟩
      · rw [readLength?_count hcount, Option.ite_none_left_eq_some] at hread
        obtain ⟨rfl, hlong, hfits, -, rfl⟩ := readLongLength?_eq_some_iff.mp hread.2
        exact ⟨_, .long hlong hfits, rfl⟩

theorem readInteger?_eq_some_iff :
    readInteger? bytes = some (digits, after) ↔
      ∃ integer, Element Length integerTag digits integer ∧ IsInteger digits ∧
        bytes = integer ++ after := by
  constructor
  · intro hread
    cases bytes with
    | nil => cases hread
    | cons tag rest =>
        rw [readInteger?, Option.ite_none_right_eq_some] at hread
        obtain ⟨rfl, hread⟩ := hread
        obtain ⟨⟨length, body⟩, hlength, hbody⟩ := Option.bind_eq_some_iff.mp hread
        obtain ⟨⟨_, _⟩, hsplit, haccept⟩ := Option.bind_eq_some_iff.mp hbody
        obtain ⟨spelled, hspelled, rfl⟩ := exists_length hlength
        obtain ⟨rfl, rfl⟩ := Bytes.split?_eq_some_iff.mp hsplit
        simp only [Option.ite_none_left_eq_some, Option.some.injEq, Prod.mk.injEq] at haccept
        obtain ⟨hinteger, rfl, rfl⟩ := haccept
        refine ⟨_, .intro hspelled, by simpa [IsInteger] using hinteger, by simp⟩
  · rintro ⟨_, ⟨hspelled⟩, hinteger, rfl⟩
    have hbody : digits.length ≤ (digits ++ after).length := by simp
    have haccepted : (digits.isEmpty || isPadded digits) = false := by
      simpa [IsInteger] using hinteger
    rw [List.cons_append, List.append_assoc, readInteger?, if_pos rfl, hspelled.read hbody]
    simp only [Option.bind_eq_bind, Option.bind_some, Bytes.split?_length_append, haccepted]
    rfl

theorem readIntegers?_eq_some_iff : readIntegers? bytes = some (r, s) ↔ Layout r s bytes := by
  constructor
  · intro hread
    cases bytes with
    | nil => cases hread
    | cons tag rest =>
        rw [readIntegers?, Option.ite_none_right_eq_some] at hread
        obtain ⟨rfl, hread⟩ := hread
        obtain ⟨⟨length, body⟩, hlength, hread⟩ := Option.bind_eq_some_iff.mp hread
        simp only [Option.ite_none_right_eq_some] at hread
        obtain ⟨rfl, hread⟩ := hread
        obtain ⟨⟨_, afterR⟩, hr, hread⟩ := Option.bind_eq_some_iff.mp hread
        obtain ⟨⟨_, afterS⟩, hs, hread⟩ := Option.bind_eq_some_iff.mp hread
        simp only [Option.ite_none_right_eq_some, Option.some.injEq, Prod.mk.injEq] at hread
        obtain ⟨hended, rfl, rfl⟩ := hread
        obtain ⟨spelled, hspelled, rfl⟩ := exists_length hlength
        obtain ⟨first, hfirst, hintegerR, rfl⟩ := readInteger?_eq_some_iff.mp hr
        obtain ⟨second, hsecond, hintegerS, rfl⟩ := readInteger?_eq_some_iff.mp hs
        rw [List.isEmpty_iff] at hended
        subst hended
        rw [List.append_nil] at hspelled ⊢
        exact .intro hfirst hsecond hintegerR hintegerS (.intro hspelled)
  · rintro ⟨hr, hs, hintegerR, hintegerS, ⟨hspelled⟩⟩
    have hsecond := readInteger?_eq_some_iff.mpr ⟨_, hs, hintegerS, (List.append_nil _).symm⟩
    simp only [readIntegers?, if_pos, hspelled.read (Nat.le_refl _), Option.bind_eq_bind,
      Option.bind_some, readInteger?_eq_some_iff.mpr ⟨_, hr, hintegerR, rfl⟩, hsecond]
    rfl

theorem Layout.unique {r' s' : Bytes} (hlayout : Layout r s bytes) (hother : Layout r' s' bytes) :
    r' = r ∧ s' = s :=
  contents_unique (fun _ _ => readIntegers?_eq_some_iff) hlayout hother

theorem decode_eq_ok_iff {pair : Pair} :
    decode .strict bytes = .ok pair ↔
      ∃ r s, Layout r s bytes ∧ ⟨scalarOf r, scalarOf s⟩ = pair := by
  rw [Der.decode_eq_ok_iff, Der.decode?, decode?]
  simp only [Option.bind_eq_bind, Option.bind_eq_some_iff, readIntegers?_eq_some_iff, Prod.exists,
    Option.some.injEq]

end Strict

end SigOps.Der
