/-
SealedScript/Proofs/Cipher/Canonical.lean

Every text that the standard cipher accepts is, up to blanks around it, the
ciphertext of what it is decrypted to.  So a text has one ciphertext, and whatever
else is handed in is refused.

Again layer by layer, from the outside.  The reader of symbols takes no byte that
is not the symbol of a number, wants the last group filled up and lets no stray bit
stand in it, so writing what was read gives the text back.  Blocks are finite in
number, and decryption undoes encryption of a block; therefore encryption undoes
decryption, with no further look at the rounds.  The bytes of a padding are all
checked, and the length of what is padded tells how many there have to be.

Main results: `Base64.encode_of_decode`, `encryptBytes_of_decryptBytes?` and
`Cipher.ciphertexts_canonical`.
-/
import Mathlib.Data.FinEnum
import Mathlib.Data.Finite.Prod
import SealedScript.Proofs.Cipher.RoundTrip

namespace SealedScript

namespace Base64

/-! ### Symbols -/

theorem exists_of_bind_eq_ok {α β : Type} {x : Except Error α} {f : α → Except Error β} {b : β}
    (h : (x >>= f) = .ok b) : ∃ a, x = .ok a ∧ f a = .ok b := by
  cases x with
  | error e => cases h
  | ok a => exact ⟨a, rfl, h⟩

theorem symbol_of_readSymbol {offset : Nat} {b : UInt8} {n : Nat} (h : readSymbol offset b = .ok n) :
    n < 64 ∧ symbol n = b := by
  have all : ∀ b : Fin 256, (value? (UInt8.ofFin b)).all (fun n => n < 64 && symbol n == UInt8.ofFin b) = true := by
    decide +kernel
  have hb := all b.toFin
  rw [UInt8.ofFin_toFin] at hb
  unfold readSymbol at h
  split at h
  · next hvalue =>
    cases h
    simpa [hvalue] using hb
  · cases h

/-! ### Groups -/

/-- The four symbols that three bytes were made of. -/
theorem group_symbols {a b c d : Nat} (ha : a < 64) (hb : b < 64) (hc : c < 64) (hd : d < 64) :
    (UInt8.ofNat (a * 4 + b / 16)).toNat / 4 = a ∧
    (UInt8.ofNat (a * 4 + b / 16)).toNat % 4 * 16 + (UInt8.ofNat (b % 16 * 16 + c / 4)).toNat / 16 = b ∧
    (UInt8.ofNat (b % 16 * 16 + c / 4)).toNat % 16 * 4 + (UInt8.ofNat (c % 4 * 64 + d)).toNat / 64 = c ∧
    (UInt8.ofNat (c % 4 * 64 + d)).toNat % 64 = d := by
  have htoNat {n : Nat} (h : n < 256) : (UInt8.ofNat n).toNat = n := UInt8.toNat_ofNat_of_lt' h
  rw [htoNat (by omega), htoNat (by omega), htoNat (by omega)]
  omega

/-- Whole groups are written as they were read, whatever bytes follow them. -/
theorem encode_of_readGroups {offset : Nat} {front bytes : List UInt8} (h : readGroups offset front = .ok bytes)
    (hlength : front.length % 4 = 0) (back : List UInt8) : encode (bytes ++ back) = front ++ encode back := by
  fun_induction readGroups offset front generalizing bytes with
  | case1 offset p q r s rest ih =>
    obtain ⟨a, hp, h⟩ := exists_of_bind_eq_ok h
    obtain ⟨b, hq, h⟩ := exists_of_bind_eq_ok h
    obtain ⟨c, hr, h⟩ := exists_of_bind_eq_ok h
    obtain ⟨d, hs, h⟩ := exists_of_bind_eq_ok h
    obtain ⟨more, hrest, h⟩ := exists_of_bind_eq_ok h
    cases h
    obtain ⟨ha, rfl⟩ := symbol_of_readSymbol hp
    obtain ⟨hb, rfl⟩ := symbol_of_readSymbol hq
    obtain ⟨hc, rfl⟩ := symbol_of_readSymbol hr
    obtain ⟨hd, rfl⟩ := symbol_of_readSymbol hs
    obtain ⟨h1, h2, h3, h4⟩ := group_symbols ha hb hc hd
    simp only [List.length_cons] at hlength
    simp only [List.cons_append, encode, h1, h2, h3, h4, ih hrest (by omega)]
  | case2 front offset hshort =>
    cases h
    -- fewer than four bytes, and no remainder
    match front with
    | [] => rfl
    | [_] | [_, _] | [_, _, _] => exact absurd hlength (by simp)
    | p :: q :: r :: s :: rest => exact absurd rfl (hshort p q r s rest)

/-- What stands in the last group: symbols, and fillers behind them. -/
theorem group_of_readLastSymbols {offset index filling count : Nat} {group : List UInt8} {symbols : List Nat}
    (h : readLastSymbols offset group index filling = .ok (symbols, count)) :
    ∃ more, count = filling + more ∧ group = symbols.map symbol ++ List.replicate more filler ∧
      (∀ n ∈ symbols, n < 64) ∧ (0 < filling → symbols = []) := by
  induction group generalizing index filling symbols with
  | nil =>
    cases h
    exact ⟨0, rfl, rfl, by simp, fun _ => rfl⟩
  | cons b rest ih =>
    rw [readLastSymbols] at h
    split at h
    · next hb =>
      split at h
      · cases h
      obtain ⟨more, rfl, rfl, hsymbols, hnone⟩ := ih h
      obtain rfl := hnone (Nat.succ_pos filling)
      exact ⟨more + 1, by omega, by rw [hb]; rfl, hsymbols, fun _ => rfl⟩
    · split at h
      · cases h
      next hfilling =>
      obtain rfl : filling = 0 := by omega
      obtain ⟨n, hread, h⟩ := exists_of_bind_eq_ok h
      obtain ⟨⟨tail, count'⟩, hrest, h⟩ := exists_of_bind_eq_ok h
      cases h
      obtain ⟨hn, rfl⟩ := symbol_of_readSymbol hread
      obtain ⟨more, hcount, rfl, hsymbols, -⟩ := ih hrest
      exact ⟨more, hcount, rfl, List.forall_mem_cons.2 ⟨hn, hsymbols⟩, fun hpos => absurd hpos hfilling⟩

/-- The last group is written as it was read: no bit is left over in its last symbol. -/
theorem encode_of_lastBytes {offset : Nat} {last : UInt8} {symbols : List Nat} {bytes : List UInt8}
    (h : lastBytes offset last symbols = .ok bytes) (hsymbols : ∀ n ∈ symbols, n < 64)
    (htwo : 2 ≤ symbols.length) (hfour : symbols.length ≤ 4) :
    encode bytes = symbols.map symbol ++ List.replicate (4 - symbols.length) filler := by
  have hzero : (0 : Nat) < 64 := by decide
  match symbols, htwo, hfour with
  | [a, b], _, _ =>
    by_cases hb : b % 16 = 0
    · obtain rfl := Except.ok.inj ((if_pos hb).symm.trans h)
      simp only [List.forall_mem_cons] at hsymbols
      obtain ⟨h1, h2, -, -⟩ := group_symbols hsymbols.1 hsymbols.2.1 hzero hzero
      have hrest : (UInt8.ofNat (b % 16 * 16 + 0 / 4)).toNat / 16 = 0 := by rw [hb]; rfl
      rw [hrest, Nat.add_zero] at h2
      rw [encode, h1, h2]
      rfl
    · exact absurd ((if_neg hb).symm.trans h) (by simp)
  | [a, b, c], _, _ =>
    by_cases hc : c % 4 = 0
    · obtain rfl := Except.ok.inj ((if_pos hc).symm.trans h)
      simp only [List.forall_mem_cons] at hsymbols
      obtain ⟨h1, h2, h3, -⟩ := group_symbols hsymbols.1 hsymbols.2.1 hsymbols.2.2.1 hzero
      have hrest : (UInt8.ofNat (c % 4 * 64 + 0)).toNat / 64 = 0 := by rw [hc]; rfl
      rw [hrest, Nat.add_zero] at h3
      rw [encode, h1, h2, h3]
      rfl
    · exact absurd ((if_neg hc).symm.trans h) (by simp)
  | [a, b, c, d], _, _ =>
    cases h
    simp only [List.forall_mem_cons] at hsymbols
    obtain ⟨h1, h2, h3, h4⟩ := group_symbols hsymbols.1 hsymbols.2.1 hsymbols.2.2.1 hsymbols.2.2.2.1
    rw [encode, h1, h2, h3, h4]
    rfl

theorem encode_of_readLastGroup {offset : Nat} {group bytes : List UInt8} (h : readLastGroup offset group = .ok bytes)
    (hlength : group.length ≤ 4) : encode bytes = group := by
  obtain ⟨⟨symbols, filling⟩, hread, h⟩ := exists_of_bind_eq_ok h
  obtain ⟨more, hmore, rfl, hsymbols, -⟩ := group_of_readLastSymbols hread
  obtain rfl : filling = more := by omega
  simp only [List.length_append, List.length_map, List.length_replicate] at hlength
  dsimp only at h
  split at h
  · cases h
  next htwo =>
  split at h
  · cases h
  next hfilled =>
  -- symbols and fillers together are four, so the reader has counted the missing ones
  have hfilling : 4 - symbols.length = filling := by omega
  have hbytes := encode_of_lastBytes h hsymbols (by omega) (by omega)
  rwa [hfilling] at hbytes

/-- **Writing undoes reading**: a text that is read is the one that its bytes are
written as. -/
theorem encode_of_decode {text bytes : List UInt8} (h : decode text = .ok bytes) : encode bytes = text := by
  unfold decode at h
  split at h
  · next hempty =>
    cases h
    exact (List.isEmpty_iff.1 hempty).symm
  · obtain ⟨⟨⟩, -, h⟩ := exists_of_bind_eq_ok h
    obtain ⟨front, hfront, h⟩ := exists_of_bind_eq_ok h
    obtain ⟨back, hback, h⟩ := exists_of_bind_eq_ok h
    cases h
    have hleading : leadingLength text.length % 4 = 0 ∧ leadingLength text.length ≤ text.length ∧
        text.length - leadingLength text.length ≤ 4 := by
      unfold leadingLength
      split <;> omega
    have htake : (text.take (leadingLength text.length)).length % 4 = 0 := by
      rw [List.length_take, Nat.min_eq_left hleading.2.1, hleading.1]
    have hdrop : (text.drop (leadingLength text.length)).length ≤ 4 := by
      rw [List.length_drop]
      exact hleading.2.2
    rw [encode_of_readGroups hfront htake, encode_of_readLastGroup hback hdrop, List.take_append_drop]

end Base64

/-! ### Blocks -/

namespace Block

instance : Finite Column :=
  Finite.of_injective (fun x => (x.b0, x.b1, x.b2, x.b3)) fun x y h => by
    simp only [Prod.mk.injEq] at h
    exact Column.mk.injEq .. ▸ h

instance : Finite Block :=
  Finite.of_injective (fun x => (x.c0, x.c1, x.c2, x.c3)) fun x y h => by
    simp only [Prod.mk.injEq] at h
    exact Block.mk.injEq .. ▸ h

/-- There are no more ciphertext blocks than blocks, so each of them is the
ciphertext of one. -/
theorem encrypt_decrypt (keys : KeySchedule) (x : Block) : (x.decrypt keys).encrypt keys = x := by
  have hleft : Function.LeftInverse (Block.decrypt keys) (Block.encrypt keys) := decrypt_encrypt keys
  have hsurjective := Finite.injective_iff_surjective.1 hleft.injective
  exact hleft.rightInverse_of_surjective hsurjective x

end Block

theorem Chain.encrypt_decrypt (keys : KeySchedule) (previous : Block) (blocks : List Block) :
    Chain.encrypt keys previous (Chain.decrypt keys previous blocks) = blocks := by
  induction blocks generalizing previous with
  | nil => rfl
  | cons c rest ih =>
    simp only [Chain.decrypt, Chain.encrypt, Block.add_add_cancel, Block.encrypt_decrypt, ih]

theorem length_bytesOfBlocks (blocks : List Block) : (bytesOfBlocks blocks).length = 16 * blocks.length := by
  induction blocks with
  | nil => rfl
  | cons x rest ih =>
    have hblock : x.toList.length = 16 := rfl
    rw [bytesOfBlocks_cons, List.length_append, hblock, ih, List.length_cons]
    omega

theorem bytesOfBlocks_of_blocksOfBytes? {bytes : List UInt8} {blocks : List Block}
    (h : blocksOfBytes? bytes = some blocks) : bytesOfBlocks blocks = bytes := by
  fun_induction blocksOfBytes? bytes generalizing blocks with
  | case1 =>
    cases h
    rfl
  | case2 a0 a1 a2 a3 a4 a5 a6 a7 a8 a9 a10 a11 a12 a13 a14 a15 rest ih =>
    obtain ⟨more, hmore, rfl⟩ := Option.map_eq_some_iff.1 h
    rw [bytesOfBlocks_cons, ih hmore]
    rfl
  | case3 => cases h

/-! ### Padding -/

theorem pad_of_unpad? {padded message : List UInt8} (h : unpad? padded = some message)
    (hlength : padded.length % 16 = 0) : pad message = padded := by
  unfold unpad? at h
  split at h
  · cases h
  next last _ =>
  dsimp only at h
  split at h
  · next hcheck =>
    simp only [Bool.and_eq_true, decide_eq_true_eq, List.all_eq_true, beq_iff_eq] at hcheck
    obtain ⟨⟨⟨hpos, hle⟩, hfits⟩, hall⟩ := hcheck
    cases h
    -- what is cut off consists of the last byte, as often as that byte says
    have hdrop : padded.drop (padded.length - last.toNat) = List.replicate last.toNat last := by
      refine List.eq_replicate_iff.2 ⟨?_, hall⟩
      rw [List.length_drop]
      omega
    have htake : (padded.take (padded.length - last.toNat)).length = padded.length - last.toNat := by
      rw [List.length_take]
      omega
    have hsize : Padding.size (padded.length - last.toNat) = last.toNat := by
      unfold Padding.size
      omega
    simp only [pad, htake, hsize, UInt8.ofNat_toNat]
    rw [← hdrop, List.take_append_drop]
  · cases h

/-- **Encryption undoes decryption of a message**: what decryption accepts is the
ciphertext of what it yields. -/
theorem encryptBytes_of_decryptBytes? {key iv : Block} {ciphertext message : List UInt8}
    (h : decryptBytes? key iv ciphertext = some message) : encryptBytes key iv message = ciphertext := by
  obtain ⟨blocks, hblocks, hunpad⟩ := Option.bind_eq_some_iff.1 h
  have hpad := pad_of_unpad? hunpad (by rw [length_bytesOfBlocks, Nat.mul_mod_right])
  rw [encryptBytes, hpad, blocksOfBytes?_bytesOfBlocks, Option.getD_some, Chain.encrypt_decrypt,
    bytesOfBlocks_of_blocksOfBytes? hblocks]

/-! ### Text and bytes -/

theorem bytesOfText_of_textOfBytes? {bytes : List UInt8} {text : String} (h : textOfBytes? bytes = some text) :
    bytesOfText text = bytes := by
  unfold textOfBytes? String.fromUTF8? at h
  split at h
  · cases h
    rfl
  · cases h

theorem bytesOfText_injective {s t : String} (h : bytesOfText s = bytesOfText t) : s = t := by
  have hs := textOfBytes?_bytesOfText s
  rw [h, textOfBytes?_bytesOfText] at hs
  exact (Option.some.inj hs).symm

/-! ### The standard cipher -/

namespace Cipher

theorem bytesOfText_sealText (key iv : Block) (text : String) :
    bytesOfText (sealText key iv text) = Base64.encode (encryptBytes key iv (bytesOfText text)) :=
  bytesOfText_ascii _ fun b hb => (Base64.encode_isSymbol _ b hb).toNat_lt

/-- A text that is opened is the ciphertext of what is found inside, up to blanks. -/
theorem sealText_of_openText {key iv : Block} {text plain : String} (h : openText key iv text = .ok plain) :
    sealText key iv plain = String.ofList (trim text.toList) := by
  unfold openText at h
  rcases hdecode : Base64.decode (bytesOfText (String.ofList (trim text.toList))) with e | bytes
  · rw [hdecode] at h
    cases h
  · rw [hdecode] at h
    simp only [Except.mapError, bind, Except.bind] at h
    split at h
    · cases h
    next message hmessage =>
    split at h
    · cases h
    next plain' hplain =>
    cases h
    refine bytesOfText_injective ?_
    rw [bytesOfText_sealText, bytesOfText_of_textOfBytes? hplain, encryptBytes_of_decryptBytes? hmessage,
      Base64.encode_of_decode hdecode]

theorem sealText_no_blank (key iv : Block) (text : String) :
    ∀ c ∈ (sealText key iv text).toList, isBlank c = false := by
  intro c hc
  rw [sealText, String.toList_ofList] at hc
  obtain ⟨b, hb, rfl⟩ := List.mem_map.1 hc
  exact (Base64.encode_isSymbol _ b hb).isBlank_eq

theorem openText_eq_ok_iff {key iv : Block} {text plain : String} :
    openText key iv text = .ok plain ↔ sealText key iv plain = String.ofList (trim text.toList) := by
  refine ⟨sealText_of_openText, fun h => ?_⟩
  have hopen := openText_sealText key iv plain
  -- only what stands between the blanks is looked at, and a ciphertext has none
  rw [openText, trim_of_no_blanks (sealText_no_blank key iv plain), String.ofList_toList, h] at hopen
  rw [openText, hopen]

/-- **Ciphertexts are canonical**: a text is decrypted to `plain` iff, without the blanks
around it, it is what `plain` is encrypted to.  So exactly one text without blanks around it
is decrypted to `plain`, and a text that is not the ciphertext of anything is refused. -/
theorem ciphertexts_canonical (key iv : Block) :
    (∀ text plain, (standard key iv).decrypt text = .ok plain ↔
      (standard key iv).encrypt plain = .ok (String.ofList (trim text.toList))) ∧
    (∀ plain, ∃! ciphertext, trim ciphertext.toList = ciphertext.toList ∧
      (standard key iv).decrypt ciphertext = .ok plain) ∧
    (∀ text, (∃ e, (standard key iv).decrypt text = .error e) ↔
      ∀ plain, (standard key iv).encrypt plain ≠ .ok (String.ofList (trim text.toList))) := by
  have hiff (text plain : String) : (standard key iv).decrypt text = .ok plain ↔
      (standard key iv).encrypt plain = .ok (String.ofList (trim text.toList)) := by
    rw [standard, Except.ok.injEq]
    exact openText_eq_ok_iff
  refine ⟨hiff, fun plain => ?_, fun text => ⟨?_, ?_⟩⟩
  · refine ⟨sealText key iv plain, ⟨trim_of_no_blanks (sealText_no_blank key iv plain),
      openText_sealText key iv plain⟩, ?_⟩
    rintro ciphertext ⟨htrim, hopen⟩
    rw [sealText_of_openText hopen, htrim, String.ofList_toList]
  · rintro ⟨e, he⟩ plain hencrypt
    rw [(hiff text plain).2 hencrypt] at he
    cases he
  · intro hnone
    rcases hdecrypt : (standard key iv).decrypt text with e | plain
    · exact ⟨e, rfl⟩
    · exact absurd ((hiff text plain).1 hdecrypt) (hnone plain)

end Cipher

end SealedScript
