import CodeMend.Proofs.Lexer.Cutting
import CodeMend.Proofs.Lexer.Characters
import CodeMend.Proofs.Lexer.Locality
import CodeMend.Syntax.Bytes

/-!
# The scans over bytes cut where the lexer cuts

A scan over bytes compares them with ASCII characters only.  The bytes of an ASCII character are
its own one; those of any other character are all `0x80` or more, so no comparison holds there, and
a scan that stands among them goes on to their end.  So each scan, started between two characters,
ends between two characters, behind what the lexer takes there:

* `literalStop_step`, `literalStop_inside`: one step between characters, and the steps inside of one;
* `literalStop_scanQuoted`, `literalStop_scanVerbatim`: the bodies of quoted and verbatim literals,
  by induction on the characters;
* `numberStop_scanNumber`: numbers;
* `lexeme_stops`: the token at the front of a text;
* `literal_stops`: all tokens of a text.
-/

namespace CodeMend.Bytes

open Lexer

variable {p : Char → Bool} {bytes rest : List UInt8} {stop : Nat} {c : Char} {cs : List Char}

/-! ## The bytes of a character -/

/-- No characters have no bytes. -/
@[simp] theorem ofChars_nil : ofChars [] = [] := rfl

/-- The bytes of the first character, and those of the others. -/
@[simp] theorem ofChars_cons (c : Char) (cs : List Char) :
    ofChars (c :: cs) = String.utf8EncodeChar c ++ ofChars cs := List.flatMap_cons

/-- The bytes of two stretches of characters. -/
@[simp] theorem ofChars_append (cs ds : List Char) : ofChars (cs ++ ds) = ofChars cs ++ ofChars ds :=
  List.flatMap_append

/-- These are the bytes of the text. -/
theorem toByteArray_ofChars (cs : List Char) :
    (ofChars cs).toByteArray = (String.ofList cs).toByteArray := by
  rw [String.toByteArray_ofList]
  rfl

/-- So there are as many as the text is long. -/
theorem length_ofChars (cs : List Char) :
    (ofChars cs).length = (String.ofList cs).utf8ByteSize := by
  rw [← String.size_toByteArray, ← toByteArray_ofChars, List.size_toByteArray]

/-- An ASCII character is one byte. -/
theorem encode_ascii (hc : c.toNat < 128) : String.utf8EncodeChar c = [UInt8.ofNat c.toNat] := by
  have hlow : c.val.toNat ≤ 127 := Nat.le_of_lt_succ hc
  unfold String.utf8EncodeChar
  exact if_pos hlow

/-- A byte of a longer character: the bits of the character below a mark. -/
theorem le_byte {m k : Nat} (hm : 0 < m) (hmk : m + k ≤ 256) (n : Nat) :
    k ≤ (UInt8.ofNat (n % m + k)).toNat := by
  have hlt := Nat.mod_lt n hm
  rw [UInt8.toNat_ofNat', Nat.mod_eq_of_lt (by omega)]
  omega

/-- Any other character has two to four bytes, none of them that of an ASCII character, and the first
one marks where a character starts. -/
theorem encode_long (hc : 128 ≤ c.toNat) : ∃ b bs, String.utf8EncodeChar c = b :: bs ∧
    192 ≤ b.toNat ∧ ∀ x ∈ bs, 128 ≤ x.toNat := by
  have hlow : ¬ c.val.toNat ≤ 127 := Nat.not_le.2 hc
  have hmore (n : Nat) : 128 ≤ (UInt8.ofNat (n % 64 + 128)).toNat :=
    le_byte (by decide) (by decide) n
  simp only [String.utf8EncodeChar, if_neg hlow]
  split
  · refine ⟨_, _, rfl, le_byte (by decide) (by decide) _, ?_⟩
    simp only [List.forall_mem_cons, hmore, true_and]
    exact List.forall_mem_nil _
  · split
    · refine ⟨_, _, rfl, Nat.le_trans (by decide) (le_byte (k := 224) (by decide) (by decide) _), ?_⟩
      simp only [List.forall_mem_cons, hmore, true_and]
      exact List.forall_mem_nil _
    · refine ⟨_, _, rfl, Nat.le_trans (by decide) (le_byte (k := 240) (by decide) (by decide) _), ?_⟩
      simp only [List.forall_mem_cons, hmore, true_and]
      exact List.forall_mem_nil _

/-- So no byte of it is that of an ASCII character. -/
theorem encode_high (hc : 128 ≤ c.toNat) : ∀ b ∈ String.utf8EncodeChar c, 128 ≤ b.toNat := by
  obtain ⟨b, bs, hencode, hb, hbs⟩ := encode_long hc
  rw [hencode]
  exact List.forall_mem_cons.2 ⟨Nat.le_trans (by decide) hb, hbs⟩

/-- A character is a first byte that no other byte of a character can be, and then bytes that are
not those of ASCII characters. -/
theorem exists_encode (c : Char) : ∃ b bs, String.utf8EncodeChar c = b :: bs ∧
    (b.toNat < 128 ∨ 192 ≤ b.toNat) ∧ ∀ x ∈ bs, 128 ≤ x.toNat := by
  by_cases hc : c.toNat < 128
  · refine ⟨UInt8.ofNat c.toNat, [], encode_ascii hc, .inl ?_, List.forall_mem_nil _⟩
    rw [UInt8.toNat_ofNat']
    omega
  · obtain ⟨b, bs, hencode, hb, hbs⟩ := encode_long (Nat.not_lt.1 hc)
    exact ⟨b, bs, hencode, .inr hb, hbs⟩

/-- A class of ASCII characters. -/
def Ascii (p : Char → Bool) : Prop := ∀ c, p c = true → c.toNat < 128

/-- One ASCII character is a class of them. -/
theorem ascii_eq (hc : c.toNat < 128) : Ascii (· == c) := by
  intro d hd
  rwa [beq_iff_eq.1 hd]

/-- So are the characters up to one. -/
theorem ascii_between {lo hi : Char} (hhi : hi.toNat < 128) :
    Ascii fun c => decide (lo ≤ c) && decide (c ≤ hi) := by
  intro c hc
  have hle : c ≤ hi := of_decide_eq_true (Bool.and_eq_true_iff.1 hc).2
  exact Nat.lt_of_le_of_lt hle hhi

/-- Two classes make one. -/
theorem Ascii.or {q : Char → Bool} (hp : Ascii p) (hq : Ascii q) : Ascii fun c => p c || q c :=
  fun c hc => (Bool.or_eq_true_iff.1 hc).elim (hp c) (hq c)

/-- Line breaks are ASCII characters. -/
theorem ascii_isLineBreak : Ascii isLineBreak := (ascii_eq (by decide)).or (ascii_eq (by decide))

/-- So are digits. -/
theorem ascii_isDigit : Ascii Char.isDigit := by
  intro c hc
  simp [Char.isDigit, UInt32.le_iff_toNat_le] at hc
  omega

/-- So are the marks between digits. -/
theorem ascii_isDigitOrGap : Ascii isDigitOrGap := ascii_isDigit.or (ascii_eq (by decide))

/-- So are hexadecimal digits. -/
theorem ascii_isHexDigit : Ascii isHexDigit :=
  (ascii_isDigit.or (ascii_between (by decide))).or (ascii_between (by decide))

/-- So are the letters that can be suffixes. -/
theorem ascii_isAlpha : Ascii Char.isAlpha := by
  intro c hc
  have := isAlpha_iff.1 hc
  omega

/-- So are those that make a literal a real number. -/
theorem ascii_isRealSuffix : Ascii isRealSuffix := by
  have one (d : Char) (hd : d.toNat < 128) : Ascii (· == d) := ascii_eq hd
  exact (((((one 'f' (by decide)).or (one 'F' (by decide))).or (one 'd' (by decide))).or
    (one 'D' (by decide))).or (one 'm' (by decide))).or (one 'M' (by decide))

/-- The byte of an ASCII character is of the classes of the character. -/
theorem isOf_ascii (hc : c.toNat < 128) : isOf p (UInt8.ofNat c.toNat) = p c := by
  have hlow : UInt8.ofNat c.toNat < 0x80 := by
    rw [UInt8.lt_iff_toNat_lt, UInt8.toNat_ofNat']
    show c.toNat % 256 < 128
    omega
  have hback : Char.ofUInt8 (UInt8.ofNat c.toNat) = c := by
    apply Char.ext
    rw [← UInt32.toNat_inj]
    show (UInt8.ofNat c.toNat).toUInt32.toNat = c.toNat
    rw [UInt8.toNat_toUInt32, UInt8.toNat_ofNat']
    omega
  simp [isOf, hlow, hback]

/-- The bytes of any other character are of no class. -/
theorem isOf_high {b : UInt8} (hb : 128 ≤ b.toNat) : isOf p b = false := by
  have hlow : ¬ b < 0x80 := by
    rw [UInt8.lt_iff_toNat_lt]
    exact Nat.not_lt.2 hb
  simp [isOf, hlow]

/-! ## What is left at an offset -/

/-- At the offset, these bytes are left. -/
def Left (bytes : List UInt8) (stop : Nat) (rest : List UInt8) : Prop :=
  ∃ front, bytes = front ++ rest ∧ front.length = stop

/-- Behind some of the bytes, the others are left. -/
theorem Left.skip (xs : List UInt8) (h : Left bytes stop (xs ++ rest)) :
    Left bytes (stop + xs.length) rest := by
  obtain ⟨front, rfl, rfl⟩ := h
  exact ⟨front ++ xs, by rw [List.append_assoc], List.length_append⟩

/-- Behind some of the characters, the others are left. -/
theorem Left.chars (taken : List Char) (h : Left bytes stop (ofChars (taken ++ cs))) :
    Left bytes (stop + (ofChars taken).length) (ofChars cs) :=
  Left.skip (ofChars taken) (ofChars_append taken cs ▸ h)

/-- Behind what stands at the front, the other characters are left. -/
theorem Left.drop {taken : List Char} (h : Left bytes stop (ofChars cs)) (htaken : taken <+: cs) :
    Left bytes (stop + (ofChars taken).length) (ofChars (cs.drop taken.length)) := by
  obtain ⟨cs, rfl⟩ := htaken
  rw [List.drop_left]
  exact h.chars taken

/-- Behind an ASCII character, the others are left. -/
theorem Left.next (h : Left bytes stop (ofChars (c :: cs))) (hc : c.toNat < 128) :
    Left bytes (stop + 1) (ofChars cs) := by
  rw [ofChars_cons, encode_ascii hc] at h
  exact h.skip [UInt8.ofNat c.toNat]

/-- What is left ends with the bytes. -/
theorem Left.length (h : Left bytes stop rest) : bytes.length = stop + rest.length := by
  obtain ⟨front, rfl, rfl⟩ := h
  exact List.length_append

/-- The byte at the offset is the first one that is left. -/
theorem Left.getElem? (h : Left bytes stop rest) : bytes[stop]? = rest.head? := by
  obtain ⟨front, rfl, rfl⟩ := h
  rw [List.getElem?_append_right (Nat.le_refl _), Nat.sub_self, List.head?_eq_getElem?]

/-- A byte is left if a character is. -/
theorem Left.lt (h : Left bytes stop (ofChars (c :: cs))) : stop < bytes.length := by
  have hpos := List.length_pos_iff.2 (String.utf8EncodeChar_ne_nil (c := c))
  rw [h.length, ofChars_cons, List.length_append]
  omega

/-- **Every offset between two characters is a boundary.** -/
theorem Left.isBoundary (h : Left bytes stop (ofChars cs)) : isBoundary bytes stop = true := by
  cases cs with
  | nil => simp [Bytes.isBoundary, h.length]
  | cons c cs =>
      obtain ⟨b, bs, hencode, hb, -⟩ := exists_encode c
      have hget : bytes[stop]? = some b := by rw [h.getElem?, ofChars_cons, hencode]; rfl
      have hfirst : b < 0x80 ∨ 0xC0 ≤ b := hb
      simp [Bytes.isBoundary, hget, hfirst]

/-- Nothing is moved that is a boundary already. -/
theorem nextBoundary_eq (h : isBoundary bytes stop = true) : nextBoundary bytes stop = stop := by
  rw [nextBoundary, if_pos h]

/-- **A comparison with ASCII characters reads the next character.** -/
theorem Left.standsAt (h : Left bytes stop (ofChars cs)) (hp : Ascii p) :
    standsAt p bytes stop = cs.head?.any p := by
  cases cs with
  | nil => simp [Bytes.standsAt, h.getElem?]
  | cons c cs =>
      by_cases hc : c.toNat < 128
      · simp [Bytes.standsAt, h.getElem?, encode_ascii hc, isOf_ascii hc]
      · have hpc : p c = false := by
          rw [← Bool.not_eq_true]
          exact fun hpc => hc (hp c hpc)
        obtain ⟨b, bs, hencode, -⟩ := exists_encode c
        have hb := encode_high (Nat.not_lt.1 hc) b (by rw [hencode]; exact List.mem_cons_self)
        simp [Bytes.standsAt, h.getElem?, hencode, isOf_high hb, hpc]

/-- Two comparisons read the next two characters. -/
theorem Left.standsAt_two {q : Char → Bool} (h : Left bytes stop (ofChars cs)) (hp : Ascii p)
    (hq : Ascii q) :
    (Bytes.standsAt p bytes stop && Bytes.standsAt q bytes (stop + 1)) =
      (cs.head?.any p && cs.tail.head?.any q) := by
  rw [h.standsAt hp]
  cases cs with
  | nil => rfl
  | cons c cs =>
      rw [List.head?_cons, Option.any_some, List.tail_cons]
      by_cases hc : p c = true
      · rw [(h.next (hp c hc)).standsAt hq]
      · rw [Bool.eq_false_iff.2 hc, Bool.false_and, Bool.false_and]

/-- No comparison holds inside of a character. -/
theorem Left.not_standsAt {b : UInt8} (h : Left bytes stop (b :: rest)) (hb : 128 ≤ b.toNat) :
    Bytes.standsAt p bytes stop = false := by
  simp [Bytes.standsAt, h.getElem?, isOf_high hb]

/-! ## Quoted literals -/

variable {quote : Char} {verbatim : Bool}

/-- **One step of the scan** where a character starts: its comparisons read that character. -/
theorem literalStop_step (h : Left bytes stop (ofChars (c :: cs))) (hquote : quote.toNat < 128) :
    literalStop quote verbatim bytes stop =
      if c == quote && verbatim && standsAt (· == quote) bytes (stop + 1) then
        literalStop quote verbatim bytes (stop + 2)
      else if c == quote then (stop + 1, true)
      else if c == '\\' && !verbatim then
        literalStop quote verbatim bytes (min (stop + 2) bytes.length)
      else if isLineBreak c && !verbatim then (stop, false)
      else literalStop quote verbatim bytes (stop + 1) := by
  have hbackslash : Ascii (· == '\\') := ascii_eq (by decide)
  rw [literalStop, dif_pos h.lt, h.standsAt (ascii_eq hquote), h.standsAt hbackslash,
    h.standsAt ascii_isLineBreak]
  rfl

/-- Nothing is left to scan. -/
theorem literalStop_end (h : Left bytes stop []) :
    literalStop quote verbatim bytes stop = (stop, false) := by
  have hend : ¬ stop < bytes.length := by
    rw [h.length]
    exact Nat.lt_irrefl _
  rw [literalStop, dif_neg hend]

/-- The scan goes on to the end of a character it stands in, by induction on the bytes that are left
of it. -/
theorem literalStop_inside {bs : List UInt8} (hbs : ∀ b ∈ bs, 128 ≤ b.toNat)
    (h : Left bytes stop (bs ++ rest)) :
    literalStop quote verbatim bytes stop = literalStop quote verbatim bytes (stop + bs.length) := by
  induction bs generalizing stop with
  | nil => rfl
  | cons b bs ih =>
      obtain ⟨hb, hbs⟩ := List.forall_mem_cons.1 hbs
      have hlt : stop < bytes.length := by
        rw [h.length, List.length_append, List.length_cons]
        omega
      have hnext : Left bytes (stop + 1) (bs ++ rest) := h.skip [b]
      rw [literalStop, dif_pos hlt]
      simp only [h.not_standsAt hb, Bool.false_and, Bool.false_eq_true, if_false]
      rw [ih hbs hnext, List.length_cons, Nat.add_assoc, Nat.add_comm 1]

/-- So a character that a literal does not end at is passed as a whole. -/
theorem literalStop_pass (h : Left bytes stop (ofChars (c :: cs))) (hquote : quote.toNat < 128)
    (hc : c ≠ quote) (hescape : verbatim = false → c ≠ '\\' ∧ isLineBreak c = false) :
    literalStop quote verbatim bytes stop =
      literalStop quote verbatim bytes (stop + (String.utf8EncodeChar c).length) := by
  by_cases hascii : c.toNat < 128
  · have hc : (c == quote) = false := beq_eq_false_iff_ne.2 hc
    have hescape : (c == '\\' && !verbatim) = false ∧ (isLineBreak c && !verbatim) = false := by
      cases verbatim with
      | true => simp
      | false =>
          obtain ⟨hslash, hbreak⟩ := hescape rfl
          simp [hslash, hbreak]
    rw [literalStop_step h hquote]
    simp only [hc, hescape, Bool.false_and, Bool.false_eq_true, if_false, encode_ascii hascii,
      List.length_singleton]
  · exact literalStop_inside (encode_high (Nat.not_lt.1 hascii)) h

/-- **The body of a quoted literal ends where the lexer ends it**, by induction on the characters
that are left.  A backslash takes the first byte of the next character along, and the scan goes on to
its end. -/
theorem literalStop_scanQuoted (hquote : quote.toNat < 128) (hslash : quote ≠ '\\')
    (h : Left bytes stop (ofChars cs)) :
    literalStop quote false bytes stop =
      (stop + (ofChars (scanQuoted quote cs).1).length, (scanQuoted quote cs).2) := by
  have hslash' : ('\\' == quote) = false := beq_eq_false_iff_ne.2 hslash.symm
  fun_induction scanQuoted quote cs generalizing stop with
  | case1 => exact literalStop_end h
  | case2 c cs taken closed hscan ih =>
      obtain ⟨b, bs, hencode, -, hbs⟩ := exists_encode c
      have hleft : Left bytes (stop + 2) (bs ++ ofChars cs) := by
        rw [ofChars_cons, ofChars_cons, hencode] at h
        exact h.skip ['\\'.toUInt8, b]
      have hmin : min (stop + 2) bytes.length = stop + 2 := by
        rw [hleft.length]
        omega
      rw [literalStop_step h hquote]
      simp only [hslash', Bool.false_and, Bool.false_eq_true, if_false, BEq.rfl, Bool.not_false,
        Bool.and_true, if_true]
      rw [hmin, literalStop_inside hbs hleft, ih (hleft.skip bs), hscan]
      simp only [ofChars_cons, List.length_append, hencode, List.length_cons,
        encode_ascii (c := '\\') (by decide), List.length_nil, Prod.mk.injEq, and_true]
      omega
  | case3 c cs _ hc =>
      obtain rfl : c = quote := beq_iff_eq.1 hc
      simp [literalStop_step h hquote, encode_ascii hquote]
  | case4 c cs _ hc hbreak =>
      have hc : (c == quote) = false := Bool.eq_false_iff.2 hc
      have hne : (c == '\\') = false := by
        rcases (isLineBreak_iff c).1 hbreak with rfl | rfl <;> decide
      simp [literalStop_step h hquote, hc, hne, hbreak]
  | case5 c cs hlone hc hbreak taken closed hscan ih =>
      have hnext : Left bytes (stop + (String.utf8EncodeChar c).length) (ofChars cs) :=
        Left.skip _ (ofChars_cons c cs ▸ h)
      have hpass : literalStop quote false bytes stop =
          literalStop quote false bytes (stop + (String.utf8EncodeChar c).length) := by
        by_cases hc' : c = '\\'
        · -- a backslash with nothing behind it: its step stays inside of the text
          subst hc'
          obtain rfl : cs = [] := by
            cases cs with
            | nil => rfl
            | cons d cs => exact (hlone d cs rfl rfl).elim
          have hmin : min (stop + 2) bytes.length = stop + 1 := by
            rw [h.length]
            exact Nat.min_eq_right (Nat.le_succ _)
          simp [literalStop_step h hquote, hslash', hmin, encode_ascii (c := '\\') (by decide)]
        · exact literalStop_pass h hquote (fun hcq => hc (beq_iff_eq.2 hcq))
            fun _ => ⟨hc', Bool.eq_false_iff.2 hbreak⟩
      rw [hpass, ih hnext, hscan, ofChars_cons, List.length_append, Nat.add_assoc]

/-- **The body of a verbatim string ends where the lexer ends it**, by induction on the characters
that are left. -/
theorem literalStop_scanVerbatim (h : Left bytes stop (ofChars cs)) :
    literalStop '"' true bytes stop =
      (stop + (ofChars (scanVerbatim cs).1).length, (scanVerbatim cs).2) := by
  have hascii : Ascii (· == '"') := ascii_eq (by decide)
  have hquote : String.utf8EncodeChar '"' = ['"'.toUInt8] := rfl
  fun_induction scanVerbatim cs generalizing stop with
  | case1 => exact literalStop_end h
  | case2 cs taken closed hscan ih =>
      have hsecond : Left bytes (stop + 1) (ofChars ('"' :: cs)) := h.chars ['"']
      have hleft : Left bytes (stop + 2) (ofChars cs) := h.chars ['"', '"']
      rw [literalStop_step h (by decide)]
      simp only [hsecond.standsAt hascii, List.head?_cons, Option.any_some, BEq.rfl, Bool.and_true,
        if_true]
      rw [ih hleft, hscan]
      simp only [ofChars_cons, List.length_append, hquote, List.length_singleton, Prod.mk.injEq,
        and_true]
      omega
  | case3 cs hsingle =>
      have hsecond : Left bytes (stop + 1) (ofChars cs) := h.chars ['"']
      have hnone : cs.head?.any (· == '"') = false := by
        cases cs with
        | nil => rfl
        | cons d cs => exact beq_eq_false_iff_ne.2 fun hd => hsingle cs (by rw [hd])
      rw [literalStop_step h (by decide)]
      simp [hsecond.standsAt hascii, hnone, hquote]
  | case4 c cs _ hc taken closed hscan ih =>
      have hnext : Left bytes (stop + (String.utf8EncodeChar c).length) (ofChars cs) :=
        Left.skip _ (ofChars_cons c cs ▸ h)
      have hpass : literalStop '"' true bytes stop =
          literalStop '"' true bytes (stop + (String.utf8EncodeChar c).length) :=
        literalStop_pass h (by decide) hc fun h => absurd h.symm Bool.false_ne_true
      rw [hpass, ih hnext, hscan, ofChars_cons, List.length_append, Nat.add_assoc]

/-- A literal ends where its body does: that is a boundary already. -/
theorem quotedStop_eq (front : List Char) {body taken : List Char} {closed : Bool}
    (hfront : (ofChars front).length = front.length) (htaken : taken <+: body)
    (h : Left bytes stop (ofChars (front ++ body)))
    (hbody : Left bytes (stop + front.length) (ofChars body) →
      literalStop quote verbatim bytes (stop + front.length) =
        (stop + front.length + (ofChars taken).length, closed)) :
    quotedStop quote front.length verbatim bytes stop =
      (stop + (ofChars (front ++ taken)).length, closed) := by
  have hleft := h.chars front
  rw [hfront] at hleft
  have hboundary := (hleft.drop htaken).isBoundary
  simp only [quotedStop, hbody hleft, nextBoundary_eq hboundary]
  rw [ofChars_append, List.length_append, hfront, Nat.add_assoc]

/-- A literal that is closed is not complained about. -/
theorem isNone_fault (closed : Bool) (message : String) :
    (if closed then none else some message : Option String).isNone = closed := by
  cases closed <;> rfl

/-- **A string ends where the lexer ends it.** -/
theorem stringStop_scanString {opening : Nat} (hopens : Opens opening verbatim cs)
    (h : Left bytes stop (ofChars cs)) :
    stringStop opening verbatim bytes stop =
      (stop + (ofChars (scanString opening verbatim cs).chars).length,
        (scanString opening verbatim cs).fault.isNone) := by
  cases hopens with
  | plain cs =>
      exact (quotedStop_eq ['"'] rfl (scanQuoted_isPrefix '"' cs) h
        (literalStop_scanQuoted (by decide) (by decide))).trans (congrArg _ (isNone_fault _ _).symm)
  | verbatim cs =>
      exact (quotedStop_eq ['@', '"'] rfl (scanVerbatim_isPrefix cs) h
        literalStop_scanVerbatim).trans (congrArg _ (isNone_fault _ _).symm)
  | interpolated cs =>
      exact (quotedStop_eq ['$', '"'] rfl (scanQuoted_isPrefix '"' cs) h
        (literalStop_scanQuoted (by decide) (by decide))).trans (congrArg _ (isNone_fault _ _).symm)
  | @marked a b first second cs =>
      have hfront : (ofChars [a, b, '"']).length = 3 := by
        rcases first with rfl | rfl <;> rcases second with rfl | rfl <;> rfl
      exact (quotedStop_eq [a, b, '"'] hfront (scanVerbatim_isPrefix cs) h
        literalStop_scanVerbatim).trans (congrArg _ (isNone_fault _ _).symm)

/-- **A character literal ends where the lexer ends it.** -/
theorem charStop_scanChar (h : Left bytes stop (ofChars ('\'' :: cs))) :
    charStop bytes stop =
      (stop + (ofChars (scanChar ('\'' :: cs)).chars).length,
        (scanChar ('\'' :: cs)).fault.isNone) := by
  exact (quotedStop_eq ['\''] rfl (scanQuoted_isPrefix '\'' cs) h
    (literalStop_scanQuoted (by decide) (by decide))).trans (congrArg _ (isNone_fault _ _).symm)

/-! ## Numbers -/

/-- The end of the characters of a class of ASCII characters, by induction on the characters. -/
theorem runStop_takeWhile (hp : Ascii p) (h : Left bytes stop (ofChars cs)) :
    runStop p bytes stop = stop + (ofChars (cs.takeWhile p)).length := by
  induction cs generalizing stop with
  | nil =>
      rw [runStop, h.standsAt hp]
      simp
  | cons c cs ih =>
      rw [runStop, dif_pos h.lt, h.standsAt hp, List.head?_cons, Option.any_some]
      by_cases hc : p c = true
      · rw [if_pos hc, ih (h.next (hp c hc)), List.takeWhile_cons_of_pos hc, ofChars_cons,
          encode_ascii (hp c hc), List.length_append, List.length_singleton, Nat.add_assoc]
      · rw [if_neg hc, List.takeWhile_cons_of_neg hc]
        rfl

/-- Two characters at the front. -/
theorem exists_two {q : Char → Bool} (h : (cs.head?.any p && cs.tail.head?.any q) = true) :
    ∃ c d ds, cs = c :: d :: ds ∧ p c = true ∧ q d = true := by
  match cs, h with
  | [_], h => simp at h
  | c :: d :: ds, h => exact ⟨c, d, ds, rfl, Bool.and_eq_true_iff.1 h⟩

/-- A fraction ends where the lexer ends it. -/
theorem fractionStop_scanFraction (h : Left bytes stop (ofChars cs)) :
    fractionStop bytes stop =
      (stop + (ofChars (scanFraction cs)).length, !(scanFraction cs).isEmpty) := by
  rw [fractionStop, h.standsAt_two (ascii_eq (by decide)) ascii_isDigit]
  fun_cases scanFraction cs with
  | case1 d cs hd =>
      rw [if_pos (by simpa using hd), runStop_takeWhile ascii_isDigitOrGap (h.next (by decide)),
        ofChars_cons, encode_ascii (c := '.') (by decide), List.length_append, List.length_singleton,
        Nat.add_assoc]
      rfl
  | case2 d cs hd =>
      rw [if_neg (by simpa using hd)]
      rfl
  | case3 _ hnone =>
      rw [if_neg]
      · rfl
      · intro htwo
        obtain ⟨c, d, cs, rfl, hc, -⟩ := exists_two htwo
        exact hnone d cs (by rw [beq_iff_eq.1 hc])

/-- A stretch of a class is empty if the first character is none of it. -/
theorem isEmpty_takeWhile (p : Char → Bool) (cs : List Char) :
    (cs.takeWhile p).isEmpty = !cs.head?.any p := by
  cases cs with
  | nil => rfl
  | cons c cs => by_cases hc : p c = true <;> simp [hc]

/-- A sign is passed if there is one. -/
theorem scanSign_stop_eq (h : Left bytes stop (ofChars cs)) :
    (if Bytes.standsAt (fun c => c == '+' || c == '-') bytes stop then stop + 1 else stop) =
      stop + (ofChars (scanSign cs)).length := by
  have hsign : Ascii fun c => c == '+' || c == '-' :=
    (ascii_eq (by decide)).or (ascii_eq (by decide))
  rw [h.standsAt hsign]
  cases cs with
  | nil => rfl
  | cons s cs =>
      rw [List.head?_cons, Option.any_some]
      by_cases hs : (s == '+' || s == '-') = true
      · rw [if_pos hs, scanSign, if_pos hs, ofChars_cons, encode_ascii (hsign s hs)]
        rfl
      · rw [if_neg hs, scanSign, if_neg hs]
        rfl

/-- An exponent ends where the lexer ends it. -/
theorem exponentStop_scanExponent (h : Left bytes stop (ofChars cs)) :
    exponentStop bytes stop =
      (stop + (ofChars (scanExponent cs)).length, !(scanExponent cs).isEmpty) := by
  have hmark : Ascii fun c => c == 'e' || c == 'E' := (ascii_eq (by decide)).or (ascii_eq (by decide))
  rw [exponentStop, h.standsAt hmark]
  cases cs with
  | nil => rfl
  | cons e cs =>
      rw [List.head?_cons, Option.any_some, scanExponent]
      by_cases he : (e == 'e' || e == 'E') = true
      · rw [if_pos he, if_pos he]
        have hnext := h.next (hmark e he)
        have hdigits := hnext.drop (scanSign_isPrefix cs)
        have hsign := scanSign_stop_eq hnext
        simp only [Nat.add_assoc, Nat.reduceAdd] at hsign hdigits ⊢
        simp only [hsign, hdigits.standsAt ascii_isDigit, isEmpty_takeWhile]
        cases hfirst : (cs.drop (scanSign cs).length).head?.any Char.isDigit with
        | false => rfl
        | true =>
            rw [if_pos rfl, runStop_takeWhile ascii_isDigit hdigits]
            simp only [Bool.not_true, Bool.false_eq_true, if_false, ofChars_cons, ofChars_append,
              encode_ascii (hmark e he), List.length_append, List.length_singleton,
              List.isEmpty_cons, Bool.not_false, Prod.mk.injEq, and_true]
            omega
      · rw [if_neg he, if_neg he]
        rfl

/-- The suffix letters end where the lexer ends them, by induction on the characters. -/
theorem suffixStop_takeWhile (h : Left bytes stop (ofChars cs)) (real : Bool) :
    suffixStop bytes stop real = (stop + (ofChars (cs.takeWhile Char.isAlpha)).length,
      real || (cs.takeWhile Char.isAlpha).any isRealSuffix) := by
  induction cs generalizing stop real with
  | nil =>
      rw [suffixStop, h.standsAt ascii_isAlpha]
      simp
  | cons c cs ih =>
      rw [suffixStop, dif_pos h.lt, h.standsAt ascii_isAlpha, h.standsAt ascii_isRealSuffix,
        List.head?_cons, Option.any_some, Option.any_some]
      by_cases hc : c.isAlpha = true
      · rw [if_pos hc, ih (h.next (ascii_isAlpha c hc)), List.takeWhile_cons_of_pos hc, ofChars_cons,
          encode_ascii (ascii_isAlpha c hc), List.length_append, List.length_singleton, Nat.add_assoc,
          List.any_cons, Bool.or_assoc]
      · rw [if_neg hc, List.takeWhile_cons_of_neg hc, List.any_nil, Bool.or_false]
        rfl

/-- The mark of hexadecimal digits is read alike. -/
theorem startsHex_eq (cs : List Char) :
    startsHex cs = (cs.head?.any (· == '0') && cs.tail.head?.any fun c => c == 'x' || c == 'X') := by
  fun_cases startsHex cs with
  | case1 x cs => rfl
  | case2 _ hnone =>
      rw [eq_comm, Bool.eq_false_iff]
      intro htwo
      obtain ⟨c, d, cs, rfl, hc, -⟩ := exists_two htwo
      exact hnone d cs (by rw [beq_iff_eq.1 hc])

/-- A hexadecimal number ends where the lexer ends it; its suffix letters do not matter. -/
theorem numberStop_hex (hhex : startsHex cs = true) (h : Left bytes stop (ofChars cs)) :
    numberStop bytes stop = (stop + (ofChars (scanNumber cs).chars).length, (scanNumber cs).kind) := by
  have hzero : Ascii (· == '0') := ascii_eq (by decide)
  have hmark : Ascii fun c => c == 'x' || c == 'X' := (ascii_eq (by decide)).or (ascii_eq (by decide))
  have hdigit : Ascii fun c => isHexDigit c || c == '_' := ascii_isHexDigit.or (ascii_eq (by decide))
  have hread := h.standsAt_two hzero hmark
  rw [← startsHex_eq, hhex] at hread
  obtain ⟨c, d, ds, rfl, hc, hd⟩ := exists_two (startsHex_eq cs ▸ hhex)
  have hfirst : Left bytes (stop + 2) (ofChars ds) := (h.next (hzero c hc)).next (hmark d hd)
  have hdigits := hfirst.drop (List.takeWhile_prefix fun c => isHexDigit c || c == '_')
  simp only [numberStop, scanNumber, hread, hhex, if_true, runStop_takeWhile hdigit hfirst,
    suffixStop_takeWhile hdigits, List.drop_succ_cons, List.take_succ_cons, List.drop_zero,
    List.take_zero, Nat.add_comm 2, Bool.not_true, Bool.false_and, Bool.false_eq_true, if_false]
  simp only [ofChars_append, ofChars_cons, ofChars_nil, encode_ascii (hzero c hc),
    encode_ascii (hmark d hd), List.length_append, List.length_cons, List.length_nil,
    Prod.mk.injEq, and_true]
  omega

/-- **A number ends where the lexer ends it, and is of the same kind.**  What is known of the kind
before the suffix letters is whether there is a fraction or an exponent. -/
theorem numberStop_scanNumber (h : Left bytes stop (ofChars cs)) :
    numberStop bytes stop = (stop + (ofChars (scanNumber cs).chars).length, (scanNumber cs).kind) := by
  by_cases hhex : startsHex cs = true
  · exact numberStop_hex hhex h
  · have hhex : startsHex cs = false := Bool.eq_false_iff.2 hhex
    have hread := h.standsAt_two (ascii_eq (c := '0') (by decide))
      ((ascii_eq (c := 'x') (by decide)).or (ascii_eq (c := 'X') (by decide)))
    rw [← startsHex_eq, hhex] at hread
    have hwhole := h.drop (List.takeWhile_prefix isDigitOrGap)
    have hdigits := hwhole.drop (scanFraction_isPrefix _)
    have hbody := hdigits.drop (scanExponent_isPrefix _)
    simp only [numberStop, scanNumber, hread, hhex, Bool.false_eq_true, if_false, decimalStop,
      runStop_takeWhile ascii_isDigitOrGap h, fractionStop_scanFraction hwhole,
      exponentStop_scanExponent hdigits, suffixStop_takeWhile hbody, Bool.not_false, Bool.true_and]
    simp only [List.drop_drop, List.length_append, ofChars_append, Nat.add_assoc]

/-! ## All tokens -/

/-- The scan over bytes for a token of its kind ends with the token, and there is a boundary. -/
structure StopsWith (bytes : List UInt8) (t : Token) : Prop where
  boundary : isBoundary bytes t.span.stop = true
  number : t.kind = .intLiteral ∨ t.kind = .realLiteral →
    numberStop bytes t.span.start = (t.span.stop, t.kind)
  string : t.kind = .stringLiteral → ∃ opening verbatim, Opens opening verbatim t.text.toList ∧
    (stringStop opening verbatim bytes t.span.start).1 = t.span.stop
  char : t.kind = .charLiteral → (charStop bytes t.span.start).1 = t.span.stop

/-- The kinds of literals that are cut by bytes. -/
def literalKinds : List Kind := [.intLiteral, .realLiteral, .stringLiteral, .charLiteral]

/-- A token of another kind is told by its boundary. -/
theorem StopsWith.of_other {t : Token} {k : Kind} (hk : t.kind = k) (hother : k ∉ literalKinds)
    (hboundary : isBoundary bytes t.span.stop = true) : StopsWith bytes t := by
  subst hk
  have other (k : Kind) (hk : k ∈ literalKinds) : t.kind ≠ k := fun h => hother (h ▸ hk)
  exact ⟨hboundary, fun h => (h.elim (other _ (by decide)) (other _ (by decide))).elim,
    fun h => (other _ (by decide) h).elim, fun h => (other _ (by decide) h).elim⟩

/-- A kind of a class that no literal is in. -/
theorem not_literal {k : Kind} {p : Kind → Bool} (hk : p k = true)
    (hall : ∀ l ∈ literalKinds, p l = false) : k ∉ literalKinds :=
  fun h => ne_of_class hk (hall k h) rfl

/-- The token at the front of what is left. -/
def frontToken (l : Lexeme) (start : Nat) : Token := ⟨l.kind, String.ofList l.chars, start⟩

/-- It ends behind its characters. -/
theorem frontToken_stop (l : Lexeme) (start : Nat) :
    (frontToken l start).span.stop = start + (ofChars l.chars).length := by
  rw [length_ofChars]
  rfl

/-- What opens a string is part of it. -/
theorem Opens.scanString {opening : Nat} (h : Opens opening verbatim cs) :
    Opens opening verbatim (scanString opening verbatim cs).chars := by
  cases h with
  | plain cs => exact .plain _
  | verbatim cs => exact .verbatim _
  | interpolated cs => exact .interpolated _
  | marked first second cs => exact .marked first second _

/-- **The scan for the token at the front ends where the lexer ends it.** -/
theorem lexeme_stops {start : Nat} (lineStart : Bool) (h : Left bytes start (ofChars (c :: cs))) :
    StopsWith bytes (frontToken (lexeme lineStart c cs) start) := by
  have hboundary : isBoundary bytes (frontToken (lexeme lineStart c cs) start).span.stop = true := by
    rw [frontToken_stop]
    exact (h.drop (lexeme_chars_isPrefix lineStart c cs)).isBoundary
  revert hboundary
  apply lexeme_cases (motive := fun l => isBoundary bytes (frontToken l start).span.stop = true →
    StopsWith bytes (frontToken l start))
  case newline => exact fun _ => .of_other (scanNewline_kind (c :: cs)) (by decide)
  case blanks => exact fun _ _ => .of_other (k := .whitespace) rfl (by decide)
  case directive =>
    exact fun _ _ => .of_other rfl (not_literal (directiveKind_isDirective _) (by decide))
  case lineComment =>
    intro _ _
    rcases scanLineComment_kind (c :: cs) with hk | hk <;> exact .of_other hk (by decide)
  case blockComment => exact fun _ _ => .of_other (k := .blockComment) rfl (by decide)
  case number =>
    intro _ hboundary
    have other (k : Kind) (hint : k ≠ .intLiteral) (hreal : k ≠ .realLiteral)
        (hk : (frontToken (scanNumber (c :: cs)) start).kind = k) : False :=
      (scanNumber_kind (c :: cs)).elim (hint <| hk.symm.trans ·) (hreal <| hk.symm.trans ·)
    refine ⟨hboundary, fun _ => ?_, fun h => (other _ (by decide) (by decide) h).elim,
      fun h => (other _ (by decide) (by decide) h).elim⟩
    rw [frontToken_stop]
    exact numberStop_scanNumber h
  case string =>
    intro opening verbatim hopens hboundary
    refine ⟨hboundary, nofun, fun _ => ⟨opening, verbatim, ?_, ?_⟩, nofun⟩
    · rw [frontToken, String.toList_ofList]
      exact Opens.scanString hopens
    · rw [frontToken_stop]
      exact congrArg Prod.fst (stringStop_scanString hopens h)
  case char =>
    rintro rfl hboundary
    refine ⟨hboundary, nofun, nofun, fun _ => ?_⟩
    rw [frontToken_stop]
    exact congrArg Prod.fst (charStop_scanChar h)
  case word =>
    intro _
    rcases scanWord_kind (c :: cs) with hk | hk
    · exact .of_other hk (by decide)
    · exact .of_other rfl (not_literal hk (by decide))
  case verbatimWord => exact fun _ _ => .of_other (k := .ident) rfl (by decide)
  case punctuation =>
    intro _ _ _
    have hall : ∀ p ∈ punctuation, p.2 ∉ literalKinds := by decide
    rcases scanPunctuation_cases c cs with ⟨p, hp, heq⟩ | herror
    · exact .of_other (by rw [heq]; rfl) (hall p hp)
    · exact .of_other herror (by decide)

/-- What is left at the start of a run ends every scan in it, by induction on the cuts. -/
theorem cuts_stops {lineStart : Bool} {start : Nat} {ts : List Token} {es : List SyntaxError}
    (h : Cuts lineStart start cs ts es) (hleft : Left bytes start (ofChars cs)) :
    ∀ t ∈ ts, StopsWith bytes t := by
  induction h with
  | done lineStart start =>
      intro t ht
      obtain rfl := List.mem_singleton.1 ht
      exact .of_other (k := .endOfFile) rfl (by decide) hleft.isBoundary
  | @token lineStart start c cs rest t ts es place kind text chars tail ih =>
      have ht : frontToken (lexeme lineStart c cs) start = t := by
        rw [frontToken, ← kind, ← text, String.ofList_toList, ← place]
      have hrest : Left bytes t.span.stop (ofChars rest) := by
        rw [← chars] at hleft
        have hskip := hleft.chars t.text.toList
        rwa [length_ofChars, String.ofList_toList, ← place] at hskip
      exact List.forall_mem_cons.2 ⟨ht ▸ lexeme_stops lineStart hleft, ih hrest⟩

end CodeMend.Bytes

namespace CodeMend

open Bytes

/-- **The literals of a text end where the scans over its bytes end**, and every token ends between two
characters. -/
theorem literal_stops (text : String) :
    ∀ t ∈ (lex text).1, StopsWith (ofChars text.toList) t :=
  cuts_stops (cuts_lex text) ⟨[], rfl, rfl⟩

end CodeMend
