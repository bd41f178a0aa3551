/-
  Encrypted files (`EncryptFile`, `DecryptFile` and `validateManifest` of `media/file.go`).

  A file is cut into parts of one size; each part is padded, with its length in front, and
  sealed under the key of the file. The manifest lists the parts, the secret holds the key and
  the delete tokens. What the random generator gives is `FileRandom`; since Go 1.24 it cannot
  fail. AES-GCM is an `Aead`. Wiping buffers is left out.

  * `encryptChunks_eq`: the loop of `EncryptFile`, part by part.
  * `validateManifest_encryptFile`, `decryptFile_encryptedFile`: what the validator and
    `DecryptFile` make of a file that was just encrypted.
  * `encryptFile_roundtrip_iff`: for which names a file comes back.
-/
import Veilmesh.Client.Core
import Veilmesh.Lib.FilePath

namespace Veilmesh.Media

open Lib Protocol Client List Nat

def maxFileNameBytes : Nat := 255
def maxMediaTypeBytes : Nat := 255
def minChunkSize : Nat := 16 * 1024
def maxChunkSize : Nat := defaultMaxItemBytes - 1024

/-- The length of an AES-GCM nonce. -/
def nonceSize : Nat := 12

structure FileChunkSecret where
  index : Int
  deleteToken : Bytes
  deriving DecidableEq, Repr

structure FileSecret where
  fileID : Bytes
  key : Bytes
  deleteTokens : List FileChunkSecret
  deriving DecidableEq, Repr

structure EncryptedChunk where
  metadata : FileChunk
  payload : Bytes
  deleteToken : Bytes
  deriving DecidableEq, Repr

structure EncryptedFile where
  secret : FileSecret
  manifest : FileManifest
  chunks : List EncryptedChunk
  deriving DecidableEq, Repr

inductive FileError where
  | limit
  | size
  | metadata
  | chunkSize
  | manifest
  | chunkCount
  | chunkMetadata
  | duplicateRoute
  | duplicateHash
  | chunkSet
  | secret
  | missing (index : Int)
  | invalid (index : Int)
  | decrypt (index : Int)
  | paddedSize
  | plaintextLength
  | reconstructed
  deriving DecidableEq, Repr

/-! ## Encryption -/

/-- What `EncryptFile` draws: the key and the identifier of the file, and for each part the
    fill, the nonce, the bytes of the route tag and the delete token. -/
structure FileRandom where
  key : Bytes
  fileID : Bytes
  fill : Nat → Nat → Bytes
  nonce : Nat → Bytes
  routeTag : Nat → Bytes
  deleteToken : Nat → Bytes
  length_key : key.length = 32
  length_fileID : fileID.length = 32
  length_fill : ∀ index n, (fill index n).length = n
  length_nonce : ∀ index, (nonce index).length = nonceSize
  length_routeTag : ∀ index, (routeTag index).length = 32
  length_deleteToken : ∀ index, (deleteToken index).length = 32

def fileAAD (fileID : Bytes) (index : Int) : Bytes :=
  lit "enig/file/v1" ++ 0 :: (fileID ++ 0 :: intText index)

/-- The length of a part, the part and the fill up to the chunk size. -/
def padChunk (random : FileRandom) (chunkSize index : Nat) (part : Bytes) : Bytes :=
  toBE 4 part.length ++ (part ++ random.fill index (chunkSize - part.length))

/-- One part, encrypted. -/
def encryptChunk (a : Aead) (random : FileRandom) (fileID : Bytes) (chunkSize index : Nat)
    (part : Bytes) : EncryptedChunk :=
  let nonce := random.nonce index
  let ciphertext := nonce ++ a.sealWith random.key nonce (padChunk random chunkSize index part)
    (fileAAD fileID index)
  { metadata :=
      { index := index
        routeTag := randomCapability (random.routeTag index)
        cipherHash := sha256 ciphertext
        cipherSize := ciphertext.length }
    payload := ciphertext
    deleteToken := random.deleteToken index }

/-- The loop of `EncryptFile`; a part ends with its chunk or with the file. -/
def encryptChunks (a : Aead) (random : FileRandom) (fileID plaintext : Bytes) (chunkSize : Nat) :
    Nat → Nat → Nat → List EncryptedChunk
  | 0, _, _ => []
  | fuel + 1, index, start =>
    if start < plaintext.length then
      encryptChunk a random fileID chunkSize index ((plaintext.drop start).take chunkSize) ::
        encryptChunks a random fileID plaintext chunkSize fuel (index + 1) (start + chunkSize)
    else []

/-- `strings.ContainsAny(s, "\x00\r\n")`. -/
def containsControl (s : Bytes) : Bool := s.any fun b => b == 0 || b == 13 || b == 10

/-- The file that is made once the input has been checked. -/
def encryptedFile (a : Aead) (random : FileRandom) (name mediaType plaintext : Bytes)
    (chunkSize : Nat) : EncryptedFile :=
  let fileID := base64Encode base64UrlAlphabet false random.fileID
  -- every chunk takes at least one byte of the file
  let chunks := encryptChunks a random fileID plaintext chunkSize plaintext.length 0 0
  { secret := ⟨fileID, random.key, chunks.map fun c => ⟨c.metadata.index, c.deleteToken⟩⟩
    manifest :=
      { version := protocolVersion
        fileID := fileID
        name := name
        mediaType := mediaType
        plaintextBytes := plaintext.length
        chunkSize := chunkSize
        chunks := chunks.map (·.metadata) }
    chunks := chunks }

/-- A setting that is not positive stands for its default. -/
def orDefault (setting : Int) (default : Nat) : Int := if setting ≤ 0 then default else setting

def encryptFile (p : Platform) (a : Aead) (random : FileRandom) (name mediaType plaintext : Bytes)
    (maxBytes chunkSize : Int) : Except FileError EncryptedFile :=
  let maxBytes := orDefault maxBytes defaultMaxFileBytes
  if maxBytes > defaultMaxFileBytes then .error .limit
  else
    let chunkSize := orDefault chunkSize defaultFileChunkSize
    let baseName := p.base name
    if plaintext.length = 0 ∨ (plaintext.length : Int) > maxBytes then .error .size
    else if baseName = lit "." ∨ baseName = [] ∨ baseName.length > maxFileNameBytes ∨
        mediaType.length = 0 ∨ mediaType.length > maxMediaTypeBytes ∨
        containsControl (baseName ++ mediaType) = true then .error .metadata
    else if chunkSize < minChunkSize ∨ chunkSize > maxChunkSize then .error .chunkSize
    else .ok (encryptedFile a random baseName mediaType plaintext chunkSize.toNat)

/-! ## The manifest -/

/-- The loop of `validateManifest`; `routes` and `hashes` are those before. -/
def checkChunks (cipherSize : Int) : Nat → List Bytes → List Bytes →
    List (FileChunk × FileChunkSecret) → Except FileError Unit
  | _, _, _, [] => .ok ()
  | index, routes, hashes, (metadata, token) :: rest =>
    if metadata.index ≠ index ∨ validRouteTag metadata.routeTag = false ∨
        metadata.cipherHash.length ≠ 32 ∨ metadata.cipherSize ≠ cipherSize ∨ token.index ≠ index ∨
        token.deleteToken.length ≠ capabilityBytes then .error .chunkMetadata
    else if metadata.routeTag ∈ routes then .error .duplicateRoute
    else if metadata.cipherHash ∈ hashes then .error .duplicateHash
    else checkChunks cipherSize (index + 1) (metadata.routeTag :: routes)
      (metadata.cipherHash :: hashes) rest

/-- What the first check of `validateManifest` asks for. -/
def headerOk (p : Platform) (secret : FileSecret) (manifest : FileManifest) : Bool :=
  (match base64Decode base64UrlAlphabet false true manifest.fileID with
    | some fileID => fileID.length == capabilityBytes
    | none => false) &&
  manifest.version == protocolVersion && manifest.fileID == secret.fileID &&
  secret.key.length == 32 && decide (0 < manifest.plaintextBytes) &&
  decide (manifest.plaintextBytes ≤ defaultMaxFileBytes) &&
  decide ((minChunkSize : Int) ≤ manifest.chunkSize) &&
  decide (manifest.chunkSize ≤ maxChunkSize) && manifest.name.length != 0 &&
  decide (manifest.name.length ≤ maxFileNameBytes) && p.base manifest.name == manifest.name &&
  manifest.mediaType.length != 0 && decide (manifest.mediaType.length ≤ maxMediaTypeBytes) &&
  !containsControl (manifest.name ++ manifest.mediaType)

def expectedChunks (manifest : FileManifest) : Int :=
  (manifest.plaintextBytes + manifest.chunkSize - 1) / manifest.chunkSize

def validateManifest (p : Platform) (secret : FileSecret) (manifest : FileManifest) :
    Except FileError Unit :=
  if headerOk p secret manifest = false then .error .manifest
  else if expectedChunks manifest ≤ 0 ∨
      expectedChunks manifest > (defaultMaxFileBytes / (16 * 1024) + 1 : Nat) ∨
      (manifest.chunks.length : Int) ≠ expectedChunks manifest ∨
      secret.deleteTokens.length ≠ manifest.chunks.length then .error .chunkCount
  else
    checkChunks (manifest.chunkSize + 4 + 12 + 16) 0 [] []
      (manifest.chunks.zip secret.deleteTokens)

/-! ## Decryption -/

/-- One chunk of a file, decrypted. -/
def decryptChunk (a : Aead) (key : Bytes) (manifest : FileManifest) (metadata : FileChunk)
    (ciphertext : Bytes) : Except FileError Bytes :=
  if sha256 ciphertext ≠ metadata.cipherHash ∨ (ciphertext.length : Int) ≠ metadata.cipherSize ∨
      ciphertext.length < nonceSize then .error (.invalid metadata.index)
  else
    match a.openWith key (ciphertext.take nonceSize) (ciphertext.drop nonceSize)
      (fileAAD manifest.fileID metadata.index) with
    | none => .error (.decrypt metadata.index)
    | some padded =>
      if (padded.length : Int) ≠ manifest.chunkSize + 4 then .error .paddedSize
      else
        let length := fromBE (padded.take 4)
        if (length : Int) > manifest.chunkSize then .error .plaintextLength
        else .ok ((padded.drop 4).take length)

/-- The loop of `DecryptFile`. -/
def decryptChunks (a : Aead) (key : Bytes) (manifest : FileManifest) (chunks : GoMap Int Bytes) :
    List FileChunk → Bytes → Except FileError Bytes
  | [], output => .ok output
  | metadata :: rest, output =>
    match chunks.lookup metadata.index with
    | none => .error (.missing metadata.index)
    | some ciphertext =>
      match decryptChunk a key manifest metadata ciphertext with
      | .error e => .error e
      | .ok part => decryptChunks a key manifest chunks rest (output ++ part)

def decryptFile (p : Platform) (a : Aead) (secret : FileSecret) (manifest : FileManifest)
    (chunks : GoMap Int Bytes) : Except FileError Bytes :=
  match validateManifest p secret manifest with
  | .error e => .error e
  | .ok () =>
    if chunks.size ≠ manifest.chunks.length then .error .chunkSet
    else if manifest.fileID ≠ secret.fileID ∨ secret.key.length ≠ 32 then .error .secret
    else
      match decryptChunks a secret.key manifest chunks manifest.chunks [] with
      | .error e => .error e
      | .ok output =>
        if (output.length : Int) ≠ manifest.plaintextBytes then .error .reconstructed
        else .ok output

/-! ## The loop of `EncryptFile` -/

/-- How many parts of `size` bytes `n` bytes have. -/
def partCount (n size : Nat) : Nat := (n + size - 1) / size

/-- Part `index` of a text. -/
def partAt (text : Bytes) (size index : Nat) : Bytes := (text.drop (index * size)).take size

theorem partCount_succ {n size : Nat} (hsize : 0 < size) (hn : 0 < n) :
    partCount n size = partCount (n - size) size + 1 := by
  unfold partCount
  rw [← add_div_right _ hsize]
  by_cases h : size ≤ n
  · congr 1
    omega
  · have hzero : n - size = 0 := by omega
    rw [hzero, Nat.zero_add]
    rw [Nat.div_eq_of_lt_le (k := 1), Nat.div_eq_of_lt_le (k := 1)] <;> omega

theorem partCount_zero {size : Nat} (hsize : 0 < size) : partCount 0 size = 0 :=
  Nat.div_eq_of_lt (by omega)

section

variable {a : Aead} {random : FileRandom} {fileID plaintext : Bytes} {size : Nat}

/-- Chunk `index` of a file. -/
def chunkAt (a : Aead) (random : FileRandom) (fileID plaintext : Bytes) (size index : Nat) :
    EncryptedChunk :=
  encryptChunk a random fileID size index (partAt plaintext size index)

/-- The loop makes the chunks of the parts that are left. -/
theorem encryptChunks_eq (hsize : 0 < size) : ∀ {fuel index : Nat},
    plaintext.length - index * size ≤ fuel →
    encryptChunks a random fileID plaintext size fuel index (index * size) =
      (List.range' index (partCount (plaintext.length - index * size) size)).map
        (chunkAt a random fileID plaintext size) := by
  intro fuel
  induction fuel with
  | zero =>
    intro index h
    rw [le_zero.mp h, partCount_zero hsize]
    rfl
  | succ fuel ih =>
    intro index h
    unfold encryptChunks
    have hnext : (index + 1) * size = index * size + size := succ_mul index size
    split
    · rename_i hlt
      rw [partCount_succ hsize (by omega), range'_succ, map_cons, ← hnext, ih (by omega)]
      congr 3
      rw [hnext, Nat.sub_sub]
    · rename_i hge
      rw [Nat.sub_eq_zero_of_le (not_lt.mp hge), partCount_zero hsize]
      rfl

theorem length_padChunk {index : Nat} {part : Bytes} (h : part.length ≤ size) :
    (padChunk random size index part).length = size + 4 := by
  simp only [padChunk, length_append, length_toBE, random.length_fill]
  omega

theorem length_partAt (text : Bytes) (size index : Nat) : (partAt text size index).length ≤ size :=
  length_take_le _ _

/-- All chunks have one length. -/
theorem length_chunkAt (index : Nat) :
    (chunkAt a random fileID plaintext size index).payload.length = size + 32 := by
  change (random.nonce index ++ a.sealWith _ _ _ _).length = _
  rw [length_append, a.length_sealWith, random.length_nonce, length_padChunk (length_partAt ..)]
  simp only [nonceSize, tagSize]
  omega

/-- A chunk is decrypted to its part. -/
theorem decryptChunk_chunkAt {manifest : FileManifest} (hid : manifest.fileID = fileID)
    (hsize : manifest.chunkSize = size) (hmax : size ≤ maxChunkSize) (index : Nat) :
    decryptChunk a random.key manifest (chunkAt a random fileID plaintext size index).metadata
      (chunkAt a random fileID plaintext size index).payload = .ok (partAt plaintext size index) := by
  have hpart := length_partAt plaintext size index
  have hlength := @length_chunkAt a random fileID plaintext size index
  have hpadded := @length_padChunk random _ index _ hpart
  have htake : (chunkAt a random fileID plaintext size index).payload.take nonceSize =
      random.nonce index := by
    rw [← random.length_nonce index]
    exact take_left
  have hdrop : (chunkAt a random fileID plaintext size index).payload.drop nonceSize =
      a.sealWith random.key (random.nonce index)
        (padChunk random size index (partAt plaintext size index)) (fileAAD fileID index) := by
    rw [← random.length_nonce index]
    exact drop_left
  have hlead : (padChunk random size index (partAt plaintext size index)).take 4 =
      toBE 4 (partAt plaintext size index).length := by
    exact take_left' (length_toBE _ _)
  have hrest : (padChunk random size index (partAt plaintext size index)).drop 4 =
      partAt plaintext size index ++ random.fill index (size - (partAt plaintext size index).length) :=
    drop_left' (length_toBE _ _)
  have hread : fromBE (toBE 4 (partAt plaintext size index).length) =
      (partAt plaintext size index).length := by
    rw [fromBE_toBE, mod_eq_of_lt]
    have : maxChunkSize < 256 ^ 4 := by decide
    omega
  unfold decryptChunk
  rw [if_neg, htake, hdrop, hid]
  · dsimp only [chunkAt, encryptChunk]
    rw [a.openWith_sealWith]
    dsimp only
    rw [hpadded, if_neg (by rw [hsize]; push_cast; exact fun h => h rfl), hlead, hread, hrest,
      if_neg (by rw [hsize]; omega), take_left]
  · rintro (h | h | h)
    · exact h rfl
    · exact h rfl
    · rw [hlength] at h
      simp only [nonceSize] at h
      omega

/-- The chunks of the parts from `index` on are decrypted to the rest of the file. -/
theorem decryptChunks_range {manifest : FileManifest} {chunks : GoMap Int Bytes}
    (hid : manifest.fileID = fileID) (hsize : manifest.chunkSize = size)
    (hmax : size ≤ maxChunkSize) : ∀ {n index : Nat} {output : Bytes},
    plaintext.length ≤ (index + n) * size →
    (∀ i, index ≤ i → i < index + n →
      chunks.lookup (i : Int) = some (chunkAt a random fileID plaintext size i).payload) →
    decryptChunks a random.key manifest chunks
      (((List.range' index n).map (chunkAt a random fileID plaintext size)).map (·.metadata)) output =
      .ok (output ++ plaintext.drop (index * size)) := by
  intro n
  induction n with
  | zero =>
    intro index output hend _
    rw [add_zero] at hend
    rw [drop_eq_nil_of_le hend, append_nil]
    rfl
  | succ n ih =>
    intro index output hend hlookup
    have hnext : (index + 1) * size = index * size + size := succ_mul index size
    have hindex : (chunkAt a random fileID plaintext size index).metadata.index = (index : Int) := rfl
    rw [range'_succ, map_cons, map_cons, decryptChunks, hindex, hlookup index le_rfl (by omega)]
    dsimp only
    rw [decryptChunk_chunkAt hid hsize hmax]
    dsimp only
    rw [ih (by rwa [add_assoc, add_comm 1]) fun i hi hlt => hlookup i (by omega) (by omega),
      append_assoc, hnext, ← drop_drop, partAt, take_append_drop]

end

/-! ## What is accepted -/

/-- What `validateManifest` asks of the chunk and the token at `i`. -/
structure ChunkOk (cipherSize : Int) (i : Nat) (chunk : FileChunk × FileChunkSecret) : Prop where
  index : chunk.1.index = i
  route : validRouteTag chunk.1.routeTag = true
  hash : chunk.1.cipherHash.length = 32
  size : chunk.1.cipherSize = cipherSize
  tokenIndex : chunk.2.index = i
  token : chunk.2.deleteToken.length = capabilityBytes

theorem checkChunks_ok_iff {cipherSize : Int} {chunks : List (FileChunk × FileChunkSecret)} :
    ∀ {index : Nat} {routes hashes : List Bytes},
      checkChunks cipherSize index routes hashes chunks = .ok () ↔
        (∀ i chunk, chunks[i]? = some chunk → ChunkOk cipherSize (index + i) chunk) ∧
        ((chunks.map (·.1.routeTag)).Nodup ∧ ∀ chunk ∈ chunks, chunk.1.routeTag ∉ routes) ∧
        (chunks.map (·.1.cipherHash)).Nodup ∧ ∀ chunk ∈ chunks, chunk.1.cipherHash ∉ hashes := by
  induction chunks with
  | nil =>
    intro index routes hashes
    simp [checkChunks]
  | cons chunk rest ih =>
    intro index routes hashes
    obtain ⟨metadata, token⟩ := chunk
    have hhead : ChunkOk cipherSize index (metadata, token) ↔
        ¬ (metadata.index ≠ index ∨ validRouteTag metadata.routeTag = false ∨
          metadata.cipherHash.length ≠ 32 ∨ metadata.cipherSize ≠ cipherSize ∨ token.index ≠ index ∨
          token.deleteToken.length ≠ capabilityBytes) := by
      simp only [not_or, not_not, Bool.not_eq_false]
      exact ⟨fun h => ⟨h.1, h.2, h.3, h.4, h.5, h.6⟩,
        fun ⟨h1, h2, h3, h4, h5, h6⟩ => ⟨h1, h2, h3, h4, h5, h6⟩⟩
    have hall : (∀ i chunk, ((metadata, token) :: rest)[i]? = some chunk →
        ChunkOk cipherSize (index + i) chunk) ↔ ChunkOk cipherSize index (metadata, token) ∧
          ∀ i chunk, rest[i]? = some chunk → ChunkOk cipherSize (index + 1 + i) chunk := by
      constructor
      · intro h
        refine ⟨h 0 _ rfl, fun i chunk hi => ?_⟩
        rw [add_assoc, add_comm 1]
        exact h (i + 1) chunk hi
      · rintro ⟨h0, h⟩ i chunk hi
        cases i with
        | zero => exact Option.some.inj hi ▸ h0
        | succ i =>
          have hnext := h i chunk hi
          rwa [add_assoc, add_comm 1] at hnext
    rw [hall, hhead]
    unfold checkChunks
    simp only [map_cons, nodup_cons, mem_map, forall_mem_cons]
    split
    · rename_i hbad
      exact iff_of_false (by rintro ⟨⟩) fun h => h.1.1 hbad
    · rename_i hgood
      split
      · rename_i hmem
        exact iff_of_false (by rintro ⟨⟩) fun h => h.2.1.2.1 hmem
      · rename_i hroute
        split
        · rename_i hmem
          exact iff_of_false (by rintro ⟨⟩) fun h => h.2.2.2.1 hmem
        · rename_i hhash
          rw [ih]
          simp only [mem_cons, not_or]
          grind

theorem validateManifest_ok_iff {p : Platform} {secret : FileSecret} {manifest : FileManifest} :
    validateManifest p secret manifest = .ok () ↔
      headerOk p secret manifest = true ∧
      (0 < expectedChunks manifest ∧
        expectedChunks manifest ≤ (defaultMaxFileBytes / (16 * 1024) + 1 : Nat) ∧
        (manifest.chunks.length : Int) = expectedChunks manifest ∧
        secret.deleteTokens.length = manifest.chunks.length) ∧
      checkChunks (manifest.chunkSize + 4 + 12 + 16) 0 [] []
        (manifest.chunks.zip secret.deleteTokens) = .ok () := by
  unfold validateManifest
  split
  · rename_i h
    exact iff_of_false (by rintro ⟨⟩) fun h' => by rw [h'.1] at h; cases h
  · rename_i hheader
    rw [Bool.not_eq_false] at hheader
    split
    · rename_i h
      refine iff_of_false (by rintro ⟨⟩) ?_
      rintro ⟨-, ⟨h1, h2, h3, h4⟩, -⟩
      rcases h with h | h | h | h
      · exact absurd h1 (not_lt.mpr h)
      · exact absurd h2 (not_le.mpr h)
      · exact h h3
      · exact h h4
    · rename_i h
      simp only [not_or, not_le, gt_iff_lt, not_lt, ne_eq, not_not] at h
      exact ⟨fun hcheck => ⟨hheader, h, hcheck⟩, fun h' => h'.2.2⟩

/-- The name, the chunk size and the file of a successful call. -/
theorem encryptFile_ok {p : Platform} {a : Aead} {random : FileRandom}
    {name mediaType plaintext : Bytes} {maxBytes chunkSize : Int} {file : EncryptedFile}
    (h : encryptFile p a random name mediaType plaintext maxBytes chunkSize = .ok file) :
    0 < plaintext.length ∧ plaintext.length ≤ defaultMaxFileBytes ∧
    p.base name ≠ [] ∧ (p.base name).length ≤ maxFileNameBytes ∧ mediaType.length ≠ 0 ∧
    mediaType.length ≤ maxMediaTypeBytes ∧ containsControl (p.base name ++ mediaType) = false ∧
    ∃ size : Nat, (size : Int) = orDefault chunkSize defaultFileChunkSize ∧ minChunkSize ≤ size ∧
      size ≤ maxChunkSize ∧ file = encryptedFile a random (p.base name) mediaType plaintext size := by
  unfold encryptFile at h
  dsimp only at h
  generalize orDefault maxBytes defaultMaxFileBytes = limit at h
  generalize orDefault chunkSize defaultFileChunkSize = size at h ⊢
  split at h
  · cases h
  · rename_i hmax
    split at h
    · cases h
    · rename_i hlength
      split at h
      · cases h
      · rename_i hname
        split at h
        · cases h
        · rename_i hsize
          simp only [not_or, not_lt, gt_iff_lt, Bool.not_eq_true] at hmax hlength hname hsize
          have hmin : (0 : Int) < minChunkSize := by decide
          refine ⟨by omega, by omega, hname.2.1, hname.2.2.1, hname.2.2.2.1, hname.2.2.2.2.1,
            hname.2.2.2.2.2, size.toNat, Int.toNat_of_nonneg (by omega), by omega, by omega, ?_⟩
          exact (Except.ok.inj h).symm

section

variable {p : Platform} {a : Aead} {random : FileRandom} {name mediaType plaintext : Bytes}
  {size : Nat} (hsize : 0 < size)

include hsize

/-- The chunks of an encrypted file, one for each part. -/
theorem encryptedFile_chunks : (encryptedFile a random name mediaType plaintext size).chunks =
      (List.range (partCount plaintext.length size)).map (chunkAt a random
        (base64Encode base64UrlAlphabet false random.fileID) plaintext size) := by
  have hloop := @encryptChunks_eq a random (base64Encode base64UrlAlphabet false random.fileID)
    plaintext _ hsize plaintext.length 0 (by omega)
  rw [Nat.zero_mul, Nat.sub_zero, ← range_eq_range'] at hloop
  exact hloop

theorem encryptedFile_length :
    (encryptedFile a random name mediaType plaintext size).chunks.length =
      partCount plaintext.length size := by
  rw [encryptedFile_chunks hsize, length_map, length_range]

theorem manifest_length :
    (encryptedFile a random name mediaType plaintext size).manifest.chunks.length =
      partCount plaintext.length size := by
  rw [← @encryptedFile_length a random name mediaType _ _ hsize]
  exact length_map _

/-- A chunk of the file is the chunk of one of its parts. -/
theorem mem_encryptedFile {chunk : EncryptedChunk} :
    chunk ∈ (encryptedFile a random name mediaType plaintext size).chunks ↔
      ∃ i < partCount plaintext.length size, chunkAt a random
        (base64Encode base64UrlAlphabet false random.fileID) plaintext size i = chunk := by
  simp only [encryptedFile_chunks hsize, mem_map, mem_range]

omit hsize in
/-- The header is accepted if the name is its own last element. -/
theorem headerOk_encryptedFile (hlength : 0 < plaintext.length)
    (hmax : plaintext.length ≤ defaultMaxFileBytes) (hmin : minChunkSize ≤ size)
    (hsize : size ≤ maxChunkSize) (hname : name ≠ []) (hbytes : name.length ≤ maxFileNameBytes)
    (htype : mediaType.length ≠ 0) (htypes : mediaType.length ≤ maxMediaTypeBytes)
    (hcontrol : containsControl (name ++ mediaType) = false) :
    headerOk p (encryptedFile a random name mediaType plaintext size).secret
      (encryptedFile a random name mediaType plaintext size).manifest = true ↔ p.base name = name := by
  have hname' : name.length ≠ 0 := fun h => hname (length_eq_zero_iff.mp h)
  have hid : base64Decode base64UrlAlphabet false true
      (base64Encode base64UrlAlphabet false random.fileID) = some random.fileID :=
    base64Decode_base64Encode base64UrlOk _ _ _
  have hpositive : (0 : Int) < plaintext.length := by exact_mod_cast hlength
  have hfile : (plaintext.length : Int) ≤ defaultMaxFileBytes := by exact_mod_cast hmax
  have hleast : (minChunkSize : Int) ≤ size := by exact_mod_cast hmin
  have hmost : (size : Int) ≤ maxChunkSize := by exact_mod_cast hsize
  unfold headerOk encryptedFile
  dsimp only
  rw [hid, decide_eq_true hpositive, decide_eq_true hfile, decide_eq_true hleast,
    decide_eq_true hmost, decide_eq_true hbytes, decide_eq_true htypes, hcontrol,
    bne_iff_ne.mpr hname', bne_iff_ne.mpr htype, random.length_key]
  simp [random.length_fileID, capabilityBytes]

theorem expectedChunks_encryptedFile (hlength : 0 < plaintext.length) :
    expectedChunks (encryptedFile a random name mediaType plaintext size).manifest =
      (partCount plaintext.length size : Int) := by
  change ((plaintext.length : Int) + size - 1) / size = ((plaintext.length + size - 1) / size : Nat)
  rw [Int.natCast_ediv]
  congr 1
  omega

omit hsize in
theorem partCount_le {n size : Nat} (hn : 0 < n) (hmax : n ≤ defaultMaxFileBytes)
    (hmin : minChunkSize ≤ size) :
    0 < partCount n size ∧ partCount n size ≤ defaultMaxFileBytes / (16 * 1024) + 1 := by
  have hsize : 0 < size := lt_of_lt_of_le (by decide) hmin
  have hcount : partCount n size = (n - 1) / size + 1 := by
    rw [← add_div_right _ hsize, partCount]
    congr 1
    omega
  have hdiv : (n - 1) / size ≤ defaultMaxFileBytes / (16 * 1024) :=
    (Nat.div_le_div_left hmin (by decide)).trans (Nat.div_le_div_right (by omega))
  rw [hcount]
  exact ⟨Nat.succ_pos _, Nat.succ_le_succ hdiv⟩

/-- The chunks of the file pass the checks if no route and no hash occurs twice. -/
theorem checkChunks_encryptedFile
    (hroutes : ((encryptedFile a random name mediaType plaintext size).chunks.map
      (·.metadata.routeTag)).Nodup)
    (hhashes : ((encryptedFile a random name mediaType plaintext size).chunks.map
      (·.metadata.cipherHash)).Nodup) : checkChunks ((size : Int) + 4 + 12 + 16) 0 [] []
      ((encryptedFile a random name mediaType plaintext size).manifest.chunks.zip
        (encryptedFile a random name mediaType plaintext size).secret.deleteTokens) = .ok () := by
  change checkChunks _ 0 [] [] (((encryptedFile a random name mediaType plaintext size).chunks.map
    _).zip ((encryptedFile a random name mediaType plaintext size).chunks.map _)) = _
  rw [zip_map', checkChunks_ok_iff, map_map, map_map]
  refine ⟨fun i chunk hi => ?_, ⟨hroutes, fun _ _ => not_mem_nil⟩, hhashes, fun _ _ => not_mem_nil⟩
  rw [encryptedFile_chunks hsize, map_map, List.getElem?_map] at hi
  obtain ⟨j, hj, rfl⟩ := Option.map_eq_some_iff.mp hi
  obtain ⟨hlt, rfl⟩ := List.getElem?_eq_some_iff.mp hj
  rw [getElem_range, Nat.zero_add]
  refine ⟨rfl, validRouteTag_randomCapability (random.length_routeTag i), length_sha256 _, ?_, rfl,
    random.length_deleteToken i⟩
  change ((chunkAt a random _ plaintext size i).payload.length : Int) = _
  rw [length_chunkAt]
  push_cast
  omega

omit hsize

/-- The chunks of the file, by index. -/
def chunkMap (chunks : List EncryptedChunk) : GoMap Int Bytes :=
  GoMap.insertAll (·.metadata.index) (·.payload) chunks ∅

theorem encryptedFile_indices (hsize : 0 < size) :
    ((encryptedFile a random name mediaType plaintext size).chunks.map (·.metadata.index)).Nodup := by
  rw [encryptedFile_chunks hsize, map_map]
  exact nodup_range.map fun i j hij => Int.ofNat.inj hij

variable {chunks : GoMap Int Bytes}

/-- With all chunks at their places, what is decrypted is the file. -/
theorem decryptFile_encryptedFile (hsize : 0 < size) (hmax : size ≤ maxChunkSize)
    (hvalid : validateManifest p (encryptedFile a random name mediaType plaintext size).secret
      (encryptedFile a random name mediaType plaintext size).manifest = .ok ())
    (hcount : chunks.size = partCount plaintext.length size)
    (hchunks : ∀ i < partCount plaintext.length size, chunks.lookup (i : Int) = some (chunkAt a random
      (base64Encode base64UrlAlphabet false random.fileID) plaintext size i).payload) :
    decryptFile p a (encryptedFile a random name mediaType plaintext size).secret
      (encryptedFile a random name mediaType plaintext size).manifest chunks = .ok plaintext := by
  have hend : plaintext.length ≤ (0 + partCount plaintext.length size) * size := by
    rw [Nat.zero_add, partCount]
    have := lt_div_mul_add (a := plaintext.length + size - 1) hsize
    omega
  have hloop := @decryptChunks_range a random (base64Encode base64UrlAlphabet false random.fileID)
    plaintext _ (encryptedFile a random name mediaType plaintext size).manifest _ rfl rfl hmax _ _ []
    hend fun i _ hlt => hchunks i (by omega)
  rw [← range_eq_range', ← @encryptedFile_chunks _ _ name mediaType _ _ hsize,
    Nat.zero_mul, drop_zero, nil_append] at hloop
  unfold decryptFile
  rw [hvalid]
  dsimp only
  rw [if_neg, if_neg]
  · change (match decryptChunks a random.key _ chunks (List.map _ (encryptedFile a random name
      mediaType plaintext size).chunks) [] with | .error e => _ | .ok output => _) = _
    rw [hloop]
    exact if_neg fun h => h rfl
  · rintro (h | h)
    · exact h rfl
    · exact h random.length_key
  · rw [hcount, not_not, manifest_length hsize]

end

/-! ## The round trip -/

section

variable {p : Platform} {a : Aead} {random : FileRandom} {name mediaType plaintext : Bytes}
  {maxBytes chunkSize : Int} {file : EncryptedFile}

/-- What was encrypted is a valid file unless its name looks like a drive. -/
theorem validateManifest_encryptFile
    (h : encryptFile p a random name mediaType plaintext maxBytes chunkSize = .ok file)
    (hroutes : (file.chunks.map (·.metadata.routeTag)).Nodup)
    (hhashes : (file.chunks.map (·.metadata.cipherHash)).Nodup) :
    validateManifest p file.secret file.manifest = .ok () ↔
      ¬ (p = .windows ∧ (p.base name)[1]? = some 58) := by
  obtain ⟨hlength, hfile, hname, hbytes, htype, htypes, hcontrol, size, -, hmin, hmax, rfl⟩ :=
    encryptFile_ok h
  have hsize : 0 < size := lt_of_lt_of_le (by decide) hmin
  have hcount := partCount_le hlength hfile hmin
  rw [validateManifest_ok_iff, headerOk_encryptedFile hlength hfile hmin hmax hname hbytes htype
    htypes hcontrol, Platform.base_base_iff, expectedChunks_encryptedFile hsize hlength]
  refine and_iff_left ⟨⟨?_, ?_, ?_, ?_⟩, checkChunks_encryptedFile hsize hroutes hhashes⟩
  · exact_mod_cast hcount.1
  · exact_mod_cast hcount.2
  · rw [manifest_length hsize]
  · exact (length_map _).trans (length_map _).symm

/-- For every input that is accepted the file is valid, has as many chunks as its size asks
    for, all of one length, and is decrypted to the plaintext: unless, on Windows, the last
    element of its name still starts like a drive. -/
theorem encryptFile_roundtrip_iff
    (h : encryptFile p a random name mediaType plaintext maxBytes chunkSize = .ok file)
    (hroutes : (file.chunks.map (·.metadata.routeTag)).Nodup)
    (hhashes : (file.chunks.map (·.metadata.cipherHash)).Nodup) :
    (validateManifest p file.secret file.manifest = .ok () ∧
      (file.chunks.length : Int) = (plaintext.length + orDefault chunkSize defaultFileChunkSize - 1) /
        orDefault chunkSize defaultFileChunkSize ∧
      (∀ chunk ∈ file.chunks,
        (chunk.payload.length : Int) = orDefault chunkSize defaultFileChunkSize + 32 ∧
          chunk.payload.length ≤ defaultMaxItemBytes) ∧
      decryptFile p a file.secret file.manifest (chunkMap file.chunks) = .ok plaintext) ↔
      ¬ (p = .windows ∧ (p.base name)[1]? = some 58) := by
  rw [← validateManifest_encryptFile h hroutes hhashes]
  obtain ⟨hlength, -, -, -, -, -, -, size, hdefault, hmin, hmax, rfl⟩ := encryptFile_ok h
  have hsize : 0 < size := lt_of_lt_of_le (by decide) hmin
  have hindices := @encryptedFile_indices a random (p.base name) mediaType plaintext _ hsize
  rw [← hdefault]
  refine ⟨fun h => h.1, fun hvalid => ⟨hvalid, ?_, fun chunk hchunk => ?_, ?_⟩⟩
  · rw [encryptedFile_length hsize,
      ← @expectedChunks_encryptedFile a random (p.base name) mediaType _ _ hsize hlength]
    rfl
  · obtain ⟨i, -, rfl⟩ := (mem_encryptedFile hsize).mp hchunk
    rw [length_chunkAt]
    have hlimit : maxChunkSize + 32 ≤ defaultMaxItemBytes := by decide
    exact ⟨by push_cast; rfl, by omega⟩
  · refine decryptFile_encryptedFile hsize hmax hvalid ?_ fun i hi => ?_
    · rw [chunkMap, GoMap.size_insertAll hindices fun _ _ => rfl, encryptedFile_length hsize]
      exact Nat.zero_add _
    · exact GoMap.lookup_insertAll hindices ((mem_encryptedFile hsize).mpr ⟨i, hi, rfl⟩)

end

/-! ## Samples -/

/-- A generator that gives nothing but zeros. -/
def zeroRandom : FileRandom where
  key := List.replicate 32 0
  fileID := List.replicate 32 0
  fill _ n := List.replicate n 0
  nonce _ := List.replicate 12 0
  routeTag _ := List.replicate 32 0
  deleteToken _ := List.replicate 32 0
  length_key := List.length_replicate
  length_fileID := List.length_replicate
  length_fill _ _ := List.length_replicate
  length_nonce _ := List.length_replicate
  length_routeTag _ := List.length_replicate
  length_deleteToken _ := List.length_replicate

/-- A file of one byte, in one chunk. -/
theorem encryptFile_sample (p : Platform) {name : Bytes} (h : p.base (lit "d/a:b") = name)
    (hname : name ≠ lit "." ∧ name ≠ [] ∧ name.length ≤ maxFileNameBytes ∧
      containsControl (name ++ lit "text/plain") = false) :
    encryptFile p plainAead zeroRandom (lit "d/a:b") (lit "text/plain") [1] 0 minChunkSize =
      .ok (encryptedFile plainAead zeroRandom name (lit "text/plain") [1] minChunkSize) := by
  unfold encryptFile
  dsimp only
  rw [h, if_neg (by decide), if_neg (by decide), if_neg, if_neg (by decide)]
  · rfl
  · rintro (h | h | h | h | h | h)
    · exact hname.1 h
    · exact hname.2.1 h
    · exact absurd h (not_lt.mpr hname.2.2.1)
    · exact absurd h (by decide)
    · exact absurd h (by decide)
    · rw [hname.2.2.2] at h
      cases h

theorem encryptFile_sample_nodup (name : Bytes) (f : EncryptedChunk → Bytes) :
    ((encryptedFile plainAead zeroRandom name (lit "text/plain") [1] minChunkSize).chunks.map
      f).Nodup := by
  rw [encryptedFile_chunks (by decide)]
  exact nodup_singleton _

/-- On Windows the file `d/a:b` is named `a:b`, and the last element of that is `b`. -/
theorem encryptFile_drive : ∃ file : EncryptedFile,
    encryptFile .windows plainAead zeroRandom (lit "d/a:b") (lit "text/plain") [1] 0 minChunkSize =
        .ok file ∧
      (file.chunks.map (·.metadata.routeTag)).Nodup ∧
      (file.chunks.map (·.metadata.cipherHash)).Nodup ∧ file.manifest.name = lit "a:b" ∧
      validateManifest .windows file.secret file.manifest ≠ .ok () := by
  have hfile := @encryptFile_sample .windows (lit "a:b") (by decide) (by decide)
  refine ⟨_, hfile, encryptFile_sample_nodup _ _, encryptFile_sample_nodup _ _, rfl, fun hvalid => ?_⟩
  exact (validateManifest_encryptFile hfile (encryptFile_sample_nodup _ _)
    (encryptFile_sample_nodup _ _)).mp hvalid (by decide)

/-- On other systems `a:b` is a name like any other. -/
theorem encryptFile_roundtrip_unix : ∃ file : EncryptedFile,
    encryptFile .unix plainAead zeroRandom (lit "d/a:b") (lit "text/plain") [1] 0 minChunkSize =
        .ok file ∧
      validateManifest .unix file.secret file.manifest = .ok () ∧
      decryptFile .unix plainAead file.secret file.manifest (chunkMap file.chunks) = .ok [1] := by
  have hfile := @encryptFile_sample .unix (lit "a:b") (by decide) (by decide)
  obtain ⟨hvalid, -, -, hopened⟩ := (encryptFile_roundtrip_iff hfile (encryptFile_sample_nodup _ _)
    (encryptFile_sample_nodup _ _)).mpr (by decide)
  exact ⟨_, hfile, hvalid, hopened⟩

end Veilmesh.Media
