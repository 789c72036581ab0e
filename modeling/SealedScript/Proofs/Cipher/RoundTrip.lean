/-
SealedScript/Proofs/Cipher/RoundTrip.lean

The standard cipher gives back what it was given, for every key, every initial
block and every text, also when blanks have gathered around the ciphertext.

Layer by layer, from the inside: a chain of blocks is decrypted behind the same
ciphertext blocks behind which it was encrypted; cutting a padded message into
blocks leaves no remainder, and its last byte tells how much to take away; the
symbols are single bytes of UTF-8 and none of them is blank, so trimming takes
exactly the blanks that were added.

Main results: `decryptBytes?_encryptBytes` for bytes and
`Cipher.decrypt_encrypt_between_blanks` for text.
-/
import SealedScript.Cipher
import SealedScript.Proofs.Cipher.Base64
import SealedScript.Proofs.Cipher.Block
import SealedScript.Proofs.Text.Trimming

namespace SealedScript

/-! ### Chaining -/

theorem Chain.decrypt_encrypt (keys : KeySchedule) (previous : Block) (blocks : List Block) :
    Chain.decrypt keys previous (Chain.encrypt keys previous blocks) = blocks := by
  induction blocks generalizing previous with
  | nil => rfl
  | cons x rest ih =>
    simp only [Chain.encrypt, Chain.decrypt, ih, Block.decrypt_encrypt, Block.add_add_cancel]

/-! ### Bytes and blocks -/

theorem blocksOfBytes?_append (x : Block) (bytes : List UInt8) :
    blocksOfBytes? (x.toList ++ bytes) = (blocksOfBytes? bytes).map (x :: ·) := rfl

theorem bytesOfBlocks_cons (x : Block) (blocks : List Block) :
    bytesOfBlocks (x :: blocks) = x.toList ++ bytesOfBlocks blocks := List.flatMap_cons

theorem blocksOfBytes?_bytesOfBlocks (blocks : List Block) :
    blocksOfBytes? (bytesOfBlocks blocks) = some blocks := by
  induction blocks with
  | nil => rfl
  | cons x rest ih => rw [bytesOfBlocks_cons, blocksOfBytes?_append, ih, Option.map_some]

theorem Block.exists_toList_eq (bytes : List UInt8) (h : bytes.length = 16) :
    ∃ x : Block, x.toList = bytes := by
  match bytes, h with
  | [a0, a1, a2, a3, a4, a5, a6, a7, a8, a9, a10, a11, a12, a13, a14, a15], _ =>
    exact ⟨⟨⟨a0, a1, a2, a3⟩, ⟨a4, a5, a6, a7⟩, ⟨a8, a9, a10, a11⟩, ⟨a12, a13, a14, a15⟩⟩, rfl⟩

/-- Bytes without a remainder can be cut into blocks. -/
theorem exists_blocksOfBytes? (count : Nat) (bytes : List UInt8) (h : bytes.length = 16 * count) :
    ∃ blocks, blocksOfBytes? bytes = some blocks ∧ bytesOfBlocks blocks = bytes := by
  induction count generalizing bytes with
  | zero =>
    obtain rfl := List.eq_nil_of_length_eq_zero h
    exact ⟨[], rfl, rfl⟩
  | succ count ih =>
    -- the first block is cut off, and the rest has one block less
    have hfirst : (bytes.take 16).length = 16 := by
      rw [List.length_take]
      omega
    have hrest : (bytes.drop 16).length = 16 * count := by
      rw [List.length_drop]
      omega
    obtain ⟨x, hx⟩ := Block.exists_toList_eq _ hfirst
    obtain ⟨blocks, hblocks, hbytes⟩ := ih _ hrest
    refine ⟨x :: blocks, ?_, ?_⟩
    · rw [← List.take_append_drop 16 bytes, ← hx, blocksOfBytes?_append, hblocks, Option.map_some]
    · rw [bytesOfBlocks_cons, hx, hbytes, List.take_append_drop]

/-! ### Padding -/

theorem Padding.size_pos (length : Nat) : 1 ≤ Padding.size length := by
  unfold Padding.size
  omega

theorem Padding.size_le (length : Nat) : Padding.size length ≤ 16 := by
  unfold Padding.size
  omega

theorem length_pad (message : List UInt8) :
    (pad message).length = message.length + Padding.size message.length := by
  simp only [pad, List.length_append, List.length_replicate]

theorem length_pad_eq (message : List UInt8) :
    (pad message).length = 16 * (message.length / 16 + 1) := by
  rw [length_pad, Padding.size]
  omega

theorem unpad?_pad (message : List UInt8) : unpad? (pad message) = some message := by
  have hpos := Padding.size_pos message.length
  have hle := Padding.size_le message.length
  have hlength := length_pad message
  -- the last byte tells the size of the padding, which is at most a block
  have hlast : (pad message).getLast? = some (UInt8.ofNat (Padding.size message.length)) := by
    rw [pad, List.getLast?_append, List.getLast?_replicate, if_neg (by omega), Option.some_or]
  have hsize : (UInt8.ofNat (Padding.size message.length)).toNat = Padding.size message.length := by
    rw [UInt8.toNat_ofNat', Nat.mod_eq_of_lt (by omega)]
  have hkept : (pad message).length - Padding.size message.length = message.length := by omega
  have hdrop : (pad message).drop message.length
      = List.replicate (Padding.size message.length) (UInt8.ofNat (Padding.size message.length)) := by
    rw [pad, List.drop_left]
  have htake : (pad message).take message.length = message := by
    rw [pad, List.take_left]
  rw [unpad?, hlast]
  simp only [hsize, hkept, hdrop, htake]
  rw [if_pos]
  simp [hpos, hle, hlength]

/-- **Decryption undoes encryption of a message** of any length. -/
theorem decryptBytes?_encryptBytes (key iv : Block) (message : List UInt8) :
    decryptBytes? key iv (encryptBytes key iv message) = some message := by
  obtain ⟨blocks, hblocks, hbytes⟩ := exists_blocksOfBytes? _ (pad message) (length_pad_eq message)
  rw [decryptBytes?, encryptBytes, hblocks, Option.getD_some, blocksOfBytes?_bytesOfBlocks,
    Option.bind_some, Chain.decrypt_encrypt, hbytes, unpad?_pad]

/-- Even the empty message has a ciphertext of at least one block. -/
theorem encryptBytes_ne_nil (key iv : Block) (message : List UInt8) :
    encryptBytes key iv message ≠ [] := by
  intro hnil
  -- no bytes at all are not the ciphertext of anything
  have h := decryptBytes?_encryptBytes key iv message
  rw [hnil] at h
  exact absurd h (by simp [decryptBytes?, blocksOfBytes?, Chain.decrypt, bytesOfBlocks, unpad?])

/-! ### Text and bytes -/

theorem textOfBytes?_bytesOfText (text : String) : textOfBytes? (bytesOfText text) = some text := by
  have hvalid : text.toByteArray.IsValidUTF8 := text.isValidUTF8
  show String.fromUTF8? text.toByteArray = some text
  rw [String.fromUTF8?, dif_pos hvalid]
  rfl

theorem utf8EncodeChar_ascii (b : UInt8) (h : b.toNat < 128) :
    String.utf8EncodeChar (Char.ofNat b.toNat) = [b] := by
  have all : ∀ n : Fin 128, String.utf8EncodeChar (Char.ofNat n) = [UInt8.ofNat n] := by
    decide +kernel
  have hb := all ⟨b.toNat, h⟩
  rwa [UInt8.ofNat_toNat] at hb

/-- A text of ASCII characters has one byte for each of them. -/
theorem bytesOfText_ascii (bytes : List UInt8) (h : ∀ b ∈ bytes, b.toNat < 128) :
    bytesOfText (String.ofList (bytes.map fun b => Char.ofNat b.toNat)) = bytes := by
  rw [bytesOfText, String.toUTF8_eq_toByteArray, String.toByteArray_ofList, List.utf8Encode,
    List.toList_data_toByteArray, List.flatMap_map]
  induction bytes with
  | nil => rfl
  | cons b rest ih =>
    have hrest : ∀ b ∈ rest, b.toNat < 128 := fun b hb => h b (List.mem_cons_of_mem _ hb)
    rw [List.flatMap_cons, utf8EncodeChar_ascii b (h b List.mem_cons_self), ih hrest]
    rfl

theorem bytesOfText_cons_ascii {b : UInt8} (h : b.toNat < 128) (rest : List Char) :
    bytesOfText (String.ofList (Char.ofNat b.toNat :: rest)) = b :: bytesOfText (String.ofList rest) := by
  simp only [bytesOfText, String.toUTF8_eq_toByteArray, String.toByteArray_ofList, List.utf8Encode,
    List.toList_data_toByteArray, List.flatMap_cons, utf8EncodeChar_ascii b h]
  rfl

/-! ### Symbols -/

theorem Base64.IsSymbol.toNat_lt {b : UInt8} (h : IsSymbol b) : b.toNat < 128 := by
  have all : ∀ n : Fin 64, (symbol n).toNat < 128 := by decide +kernel
  rcases h with rfl | ⟨n, hn, rfl⟩
  · decide
  · exact all ⟨n, hn⟩

theorem Base64.IsSymbol.isBlank_eq {b : UInt8} (h : IsSymbol b) :
    isBlank (Char.ofNat b.toNat) = false := by
  have all : ∀ n : Fin 64, isBlank (Char.ofNat (symbol n).toNat) = false := by decide +kernel
  rcases h with rfl | ⟨n, hn, rfl⟩
  · decide
  · exact all ⟨n, hn⟩

/-! ### The standard cipher -/

namespace Cipher

theorem openText_between_blanks (key iv : Block) (text before after : String)
    (hbefore : ∀ c ∈ before.toList, isBlank c = true)
    (hafter : ∀ c ∈ after.toList, isBlank c = true) :
    openText key iv (before ++ sealText key iv text ++ after) = .ok text := by
  have hsymbols := Base64.encode_isSymbol (encryptBytes key iv (bytesOfText text))
  have hne := Base64.encode_ne_nil (encryptBytes_ne_nil key iv (bytesOfText text))
  -- what is left after trimming are the symbols, each of them a byte of its own
  have htrim : trim (before ++ sealText key iv text ++ after).toList
      = (Base64.encode (encryptBytes key iv (bytesOfText text))).map fun b => Char.ofNat b.toNat := by
    rw [String.toList_append, String.toList_append, sealText, String.toList_ofList]
    refine trim_between_blanks hbefore hafter (by simpa using hne) ?_
    intro c hc
    obtain ⟨b, hb, rfl⟩ := List.mem_map.1 hc
    exact (hsymbols b hb).isBlank_eq
  have hbytes := bytesOfText_ascii _ fun b hb => (hsymbols b hb).toNat_lt
  have hdecode : (Base64.decode (Base64.encode (encryptBytes key iv (bytesOfText text)))).mapError
      CipherError.base64 = .ok (encryptBytes key iv (bytesOfText text)) := by
    rw [Base64.decode_encode]
    rfl
  rw [openText, htrim, hbytes, hdecode]
  simp only [bind, Except.bind, decryptBytes?_encryptBytes, textOfBytes?_bytesOfText, pure, Except.pure]

/-- The form without blanks, in which the machine uses it. -/
theorem openText_sealText (key iv : Block) (text : String) :
    openText key iv (sealText key iv text) = .ok text := by
  have h := openText_between_blanks key iv text "" "" (by simp) (by simp)
  rwa [String.empty_append, String.append_empty] at h

/-- A text that begins with a character which is neither blank nor a symbol is not
opened. -/
theorem openText_stranger (key iv : Block) {b : UInt8} (hascii : b.toNat < 128)
    (hblank : isBlank (Char.ofNat b.toNat) = false) (hvalue : Base64.value? b = none) (rest : List Char) :
    ∃ e, openText key iv (String.ofList (Char.ofNat b.toNat :: rest)) = .error e := by
  obtain ⟨rest', htrim⟩ := trim_cons hblank rest
  obtain ⟨e, he⟩ := Base64.decode_stranger hvalue (bytesOfText (String.ofList rest'))
  refine ⟨.base64 e, ?_⟩
  rw [openText, String.toList_ofList, htrim, bytesOfText_cons_ascii hascii, he]
  rfl

/-- **The cipher gives back what it was given**: every text is encrypted, and
its ciphertext between any blanks is decrypted to that text. -/
theorem decrypt_encrypt_between_blanks (key iv : Block) (text before after : String)
    (hbefore : ∀ c ∈ before.toList, isBlank c = true)
    (hafter : ∀ c ∈ after.toList, isBlank c = true) :
    ∃ ciphertext, (standard key iv).encrypt text = .ok ciphertext ∧
      (standard key iv).decrypt (before ++ ciphertext ++ after) = .ok text :=
  ⟨sealText key iv text, rfl, openText_between_blanks key iv text before after hbefore hafter⟩

/-- A tab and a line end around the ciphertext of a text of seventeen bytes,
which fills one block and begins a second. -/
theorem decrypt_encrypt_between_tab_and_newline :
    (∀ c ∈ "\t".toList, isBlank c = true) ∧ (∀ c ∈ "\n".toList, isBlank c = true) ∧
    ∃ ciphertext, (standard defaultKey defaultIV).encrypt "élan vital 12345" = .ok ciphertext ∧
      (standard defaultKey defaultIV).decrypt ("\t" ++ ciphertext ++ "\n") = .ok "élan vital 12345" :=
  have htab : ∀ c ∈ "\t".toList, isBlank c = true := List.all_eq_true.mp (by decide)
  have hnewline : ∀ c ∈ "\n".toList, isBlank c = true := List.all_eq_true.mp (by decide)
  ⟨htab, hnewline, decrypt_encrypt_between_blanks defaultKey defaultIV _ _ _ htab hnewline⟩

end Cipher

end SealedScript
