import RocksKV.Lib.Crc32
import RocksKV.Lib.Frames
/-!
# Entries of the command log (`pkg/storage/command_log.go:21-135`)

| here | there |
| --- | --- |
| `CmdType.byte`        | `CmdTypePut`, `CmdTypeDelete`, `CmdTypeFieldBatch` (`:23-25`) |
| `CommandEntry`        | `type CommandEntry` (`:39-48`) |
| `newEntry`            | the entry `Append` builds (`:218-226`), with the `CRC` that `Encode` leaves in it |
| `CommandEntry.encode` | `Encode` (`:51-78`) |
| `computeEntryCRC`     | `ComputeEntryCRC` (`:81-92`) |
| `decodeCommandEntry`  | `DecodeCommandEntry` (`:95-138`); end of file, a short read and a bad checksum all end a scan |
-/

namespace RocksKV.Storage

open Lib

inductive CmdType
  | put | delete | fieldBatch
  deriving DecidableEq, Repr

def CmdType.byte : CmdType → UInt8
  | .put => 1
  | .delete => 2
  | .fieldBatch => 3

/-- The cases of the `switch` on an entry's type; any other byte matches none. -/
def CmdType.ofByte (b : UInt8) : Option CmdType :=
  if b = 1 then some .put else if b = 2 then some .delete else if b = 3 then some .fieldBatch else none

/-- A command as it is handed to the log. -/
structure Command where
  cmdType : CmdType
  key     : Bytes
  value   : Bytes
  deriving DecidableEq, Repr

structure CommandEntry where
  sequence  : UInt64
  timestamp : Int64
  cmdType   : UInt8
  keyLen    : UInt32
  valueLen  : UInt32
  key       : Bytes
  value     : Bytes
  crc       : UInt32
  deriving DecidableEq

namespace CommandEntry

/-- The first 25 bytes. -/
def header (e : CommandEntry) : Bytes :=
  be 8 e.sequence.toNat ++ (be 8 e.timestamp.toUInt64.toNat ++
    (e.cmdType :: (be 4 e.keyLen.toNat ++ be 4 e.valueLen.toNat)))

def computeEntryCRC (header key value : Bytes) : UInt32 := checksumIEEE (header ++ key ++ value)

def encode (e : CommandEntry) : Bytes :=
  e.header ++ (e.key ++ (e.value ++ be 4 (computeEntryCRC e.header e.key e.value).toNat))

/-- An entry whose lengths and checksum are those of its contents. -/
structure Ok (e : CommandEntry) : Prop where
  keyLen   : e.keyLen.toNat = e.key.length
  valueLen : e.valueLen.toNat = e.value.length
  crc      : e.crc = computeEntryCRC e.header e.key e.value

/-- `8 + 8 + 1 + 4 + 4 + len(Key) + len(Value) + 4`. -/
def size (e : CommandEntry) : Nat := 8 + 8 + 1 + 4 + 4 + e.key.length + e.value.length + 4

end CommandEntry

open CommandEntry

/-- The lengths are cut to 32 bits. -/
def newEntry (sequence : UInt64) (timestamp : Int64) (cmdType : UInt8) (key value : Bytes) : CommandEntry :=
  let e : CommandEntry :=
    { sequence := sequence, timestamp := timestamp, cmdType := cmdType
      keyLen := UInt32.ofNat key.length, valueLen := UInt32.ofNat value.length
      key := key, value := value, crc := 0 }
  { e with crc := computeEntryCRC e.header key value }

/-- The fields of a 25-byte header. -/
def parseHeader (header key value : Bytes) (crc : UInt32) : CommandEntry :=
  { sequence := UInt64.ofNat (ofBe (header.take 8))
    timestamp := Int64.ofUInt64 (UInt64.ofNat (ofBe ((header.drop 8).take 8)))
    cmdType := (header.drop 16).headD 0
    keyLen := UInt32.ofNat (ofBe ((header.drop 17).take 4))
    valueLen := UInt32.ofNat (ofBe ((header.drop 21).take 4))
    key := key, value := value, crc := crc }

/-- A zero length is not read, and `Value` stays nil. -/
def readValue (valueLen : UInt32) : Reader Bytes :=
  if 0 < valueLen then Reader.full valueLen.toNat else pure []

def decodeCommandEntry : Reader CommandEntry := do
  let header ← Reader.full (8 + 8 + 1 + 4 + 4)
  let e := parseHeader header [] [] 0
  let key ← Reader.full e.keyLen.toNat
  let value ← readValue e.valueLen
  let crcBuf ← Reader.full 4
  let storedCRC := UInt32.ofNat (ofBe crcBuf)
  Reader.require (decide (storedCRC = computeEntryCRC header key value))
  return parseHeader header key value storedCRC

/-! ## The codec -/

theorem length_header (e : CommandEntry) : e.header.length = 25 := by
  simp [header]

theorem length_encode (e : CommandEntry) : e.encode.length = e.size := by
  simp [encode, size, length_header]
  omega

theorem newEntry_ok {sequence : UInt64} {timestamp : Int64} {cmdType : UInt8} {key value : Bytes}
    (hk : key.length < 2 ^ 32) (hv : value.length < 2 ^ 32) : (newEntry sequence timestamp cmdType key value).Ok where
  keyLen := by simpa [newEntry] using Nat.mod_eq_of_lt hk
  valueLen := by simpa [newEntry] using Nat.mod_eq_of_lt hv
  crc := rfl

/-- A header parses back to the fields it was made of. -/
theorem parseHeader_header (e : CommandEntry) (key value : Bytes) (crc : UInt32) :
    parseHeader e.header key value crc = { e with key := key, value := value, crc := crc } := by
  have h0 : e.header.take 8 = be 8 e.sequence.toNat := List.take_left' (by simp)
  have h8 : e.header.drop 8 = be 8 e.timestamp.toUInt64.toNat ++
      (e.cmdType :: (be 4 e.keyLen.toNat ++ be 4 e.valueLen.toNat)) := List.drop_left' (by simp)
  have h16 : e.header.drop 16 = e.cmdType :: (be 4 e.keyLen.toNat ++ be 4 e.valueLen.toNat) := by
    rw [show (16 : Nat) = 8 + 8 from rfl, ← List.drop_drop, h8, List.drop_left' (by simp)]
  have h17 : e.header.drop 17 = be 4 e.keyLen.toNat ++ be 4 e.valueLen.toNat := by
    rw [show (17 : Nat) = 16 + 1 from rfl, ← List.drop_drop, h16]; rfl
  have h21 : e.header.drop 21 = be 4 e.valueLen.toNat := by
    rw [show (21 : Nat) = 17 + 4 from rfl, ← List.drop_drop, h17, List.drop_left' (by simp)]
  have t8 : (e.header.drop 8).take 8 = be 8 e.timestamp.toUInt64.toNat := by
    rw [h8, List.take_left' (by simp)]
  have t17 : (e.header.drop 17).take 4 = be 4 e.keyLen.toNat := by rw [h17, List.take_left' (by simp)]
  have t21 : (e.header.drop 21).take 4 = be 4 e.valueLen.toNat := by
    rw [h21, List.take_of_length_le (by simp)]
  have w64 : ∀ x : UInt64, UInt64.ofNat (x.toNat % 256 ^ 8) = x := fun x => by
    rw [Nat.mod_eq_of_lt (by have := x.toNat_lt; norm_num at this ⊢; omega)]; simp
  have w32 : ∀ x : UInt32, UInt32.ofNat (x.toNat % 256 ^ 4) = x := fun x => by
    rw [Nat.mod_eq_of_lt (by have := x.toNat_lt; norm_num at this ⊢; omega)]; simp
  simp only [parseHeader, h0, t8, h16, t17, t21, ofBe_be, w64, w32, List.headD_cons]

theorem readValue_append {n : UInt32} {value : Bytes} (h : n.toNat = value.length) (r : Bytes) :
    readValue n (value ++ r) = some (value, r) := by
  unfold readValue
  by_cases h0 : 0 < n
  · rw [if_pos h0, Reader.full_append_of_length h.symm]
  · have hl : value.length = 0 := by
      rw [← h]
      simpa [UInt32.lt_iff_toNat_lt] using h0
    rw [if_neg h0, List.length_eq_zero_iff.1 hl]
    rfl

theorem stable_readValue (n : UInt32) : Reader.Stable (readValue n) := by
  unfold readValue
  split_ifs
  · exact Reader.Stable.full _
  · exact Reader.Stable.pure _

theorem takes_readValue (n : UInt32) : Reader.Takes 0 (readValue n) := by
  unfold readValue
  split_ifs
  · exact (Reader.Takes.full _).mono (Nat.zero_le _)
  · exact Reader.Takes.pure _

/-- **An entry decodes to itself**, whatever follows it. -/
theorem decode_encode {e : CommandEntry} (he : e.Ok) (r : Bytes) :
    decodeCommandEntry (e.encode ++ r) = some (e, r) := by
  have hcrc : UInt32.ofNat (ofBe (be 4 (computeEntryCRC e.header e.key e.value).toNat)) = e.crc := by
    rw [ofBe_be, Nat.mod_eq_of_lt (by have := (computeEntryCRC e.header e.key e.value).toNat_lt; norm_num at this ⊢; omega),
      he.crc]
    simp
  simp only [decodeCommandEntry, Reader.bind_eq]
  rw [encode, List.append_assoc, Reader.full_append_of_length (length_header e)]
  simp only [Option.bind_some, parseHeader_header]
  rw [List.append_assoc, Reader.full_append_of_length he.keyLen.symm]
  simp only [Option.bind_some]
  rw [List.append_assoc, readValue_append he.valueLen]
  simp only [Option.bind_some]
  rw [Reader.full_append_of_length (by simp)]
  simp only [Option.bind_some, hcrc, Reader.require, he.crc, decide_true, if_true]
  rw [← he.crc]
  rfl

theorem stable_decodeCommandEntry : Reader.Stable decodeCommandEntry := by
  refine Reader.Stable.bind (Reader.Stable.full _) fun header => ?_
  refine Reader.Stable.bind (Reader.Stable.full _) fun key => ?_
  refine Reader.Stable.bind (stable_readValue _) fun value => ?_
  refine Reader.Stable.bind (Reader.Stable.full _) fun crcBuf => ?_
  exact Reader.Stable.bind (Reader.Stable.require _) fun _ => Reader.Stable.pure _

theorem takes_decodeCommandEntry : Reader.Takes 1 decodeCommandEntry := by
  have h : Reader.Takes (25 + 0) decodeCommandEntry := by
    refine Reader.Takes.bind (Reader.Takes.full _) fun header => ?_
    refine (Reader.Takes.bind (k := 0) (Reader.Takes.full _) fun key => ?_).mono (Nat.zero_le _)
    refine Reader.Takes.bind (k := 0) (takes_readValue _) fun value => ?_
    refine (Reader.Takes.bind (k := 0) (Reader.Takes.full 4) fun crcBuf => ?_).mono (Nat.zero_le _)
    exact Reader.Takes.bind (Reader.Takes.require _) fun _ => Reader.Takes.pure _
  exact h.mono (by omega)

/-- Entries as frames of a log file. -/
def entryCodec : Codec CommandEntry where
  read     := decodeCommandEntry
  enc      := CommandEntry.encode
  Ok       := CommandEntry.Ok
  read_enc := decode_encode
  stable   := stable_decodeCommandEntry
  takes    := takes_decodeCommandEntry

/-! ## Decoding is exact -/

theorem readValue_eq_some {n : UInt32} {b value r : Bytes} (h : readValue n b = some (value, r)) : b = value ++ r := by
  unfold readValue at h
  split_ifs at h
  · exact (Reader.full_eq_some.1 h).2
  · cases h
    rfl

/-- A header of the right length is that of the entry it parses to. -/
theorem header_parseHeader {header : Bytes} (h : header.length = 25) (key value : Bytes) (crc : UInt32) :
    (parseHeader header key value crc).header = header := by
  have htype : (header.drop 16).headD 0 :: header.drop 17 = header.drop 16 := by
    rw [List.drop_eq_getElem_cons (show 16 < header.length by omega)]
    rfl
  have hlast : (header.drop 21).take 4 = header.drop 21 := List.take_of_length_le (by simp; omega)
  rw [CommandEntry.header]
  simp only [parseHeader, show ∀ u : UInt64, (Int64.ofUInt64 u).toUInt64 = u from fun _ => rfl]
  rw [be_ofBe_uint64 (by simp; omega), be_ofBe_uint64 (by simp; omega), be_ofBe_uint32 (by simp; omega),
    be_ofBe_uint32 (by simp; omega), hlast, show (21 : Nat) = 17 + 4 from rfl, take_drop_append, htype,
    show (16 : Nat) = 8 + 8 from rfl, take_drop_append, List.take_append_drop]

/-- What is left follows the encoding of the entry that is returned. -/
theorem exact_entryCodec : entryCodec.Exact := by
  intro b e rest h
  change decodeCommandEntry b = some (e, rest) at h
  simp only [decodeCommandEntry, Reader.bind_eq, Option.bind_eq_some_iff] at h
  obtain ⟨⟨header, b1⟩, hheader, ⟨key, b2⟩, hkey, ⟨value, b3⟩, hvalue, ⟨crcBuf, b4⟩, hcrc, ⟨⟨⟩, b5⟩, hreq, he⟩ := h
  obtain ⟨hlen, rfl⟩ := Reader.full_eq_some.1 hheader
  obtain ⟨-, rfl⟩ := Reader.full_eq_some.1 hkey
  obtain rfl := readValue_eq_some hvalue
  obtain ⟨hcrcLen, rfl⟩ := Reader.full_eq_some.1 hcrc
  unfold Reader.require at hreq
  split_ifs at hreq with hmatch
  cases hreq
  cases he
  have hhead := header_parseHeader hlen key value (UInt32.ofNat (ofBe crcBuf))
  change _ = CommandEntry.encode _ ++ _
  rw [CommandEntry.encode, hhead]
  have hsum : be 4 (computeEntryCRC header key value).toNat = crcBuf := by
    rw [← of_decide_eq_true hmatch, be_ofBe_uint32 hcrcLen]
  simp only [parseHeader, hsum, List.append_assoc]

/-! ## Streams of entries -/

/-- An entry as `Append` builds it, with lengths that fit their four bytes. -/
def Appended (e : CommandEntry) : Prop :=
  ∃ sequence timestamp cmdType key value, key.length < 2 ^ 32 ∧ value.length < 2 ^ 32 ∧
    e = newEntry sequence timestamp cmdType key value

theorem Appended.ok {e : CommandEntry} (h : Appended e) : e.Ok := by
  obtain ⟨sequence, timestamp, cmdType, key, value, hk, hv, rfl⟩ := h
  exact newEntry_ok hk hv

/-- What `Encode` checksums is the part of its buffer before the checksum, and so the same bytes that
`ComputeEntryCRC` puts together. -/
theorem encode_eq_body (e : CommandEntry) :
    e.encode = (e.header ++ e.key ++ e.value) ++ be 4 (checksumIEEE (e.header ++ e.key ++ e.value)).toNat := by
  simp only [encode, computeEntryCRC, List.append_assoc]

/-- **The codec is exact on streams**: an encoding carries the checksum of its own bytes, decodes to its entry and
leaves the reader at what follows it, a concatenation decodes to the list of its entries, and no strict prefix of an
encoding decodes. -/
theorem decodeCommandEntry_stream {e : CommandEntry} (he : Appended e) {es : List CommandEntry}
    (hes : ∀ x ∈ es, Appended x) (rest : Bytes) :
    e.encode = (e.header ++ e.key ++ e.value) ++ be 4 (checksumIEEE (e.header ++ e.key ++ e.value)).toNat ∧
    decodeCommandEntry (e.encode ++ rest) = some (e, rest) ∧
    entryCodec.frames (es.flatMap CommandEntry.encode ++ rest) = es ++ entryCodec.frames rest ∧
    ∀ m, m < e.encode.length → decodeCommandEntry (e.encode.take m) = none := by
  refine ⟨encode_eq_body e, decode_encode he.ok rest,
    entryCodec.frames_flat_append (fun x hx => (hes x hx).ok) rest, fun m hm => ?_⟩
  have hwhole : decodeCommandEntry e.encode = some (e, []) := by
    have h := decode_encode he.ok []
    rwa [List.append_nil] at h
  exact stable_decodeCommandEntry.short hwhole hm

/-- A put and a delete without a value, in a row. -/
theorem decodeCommandEntry_stream_two :
    entryCodec.frames ((newEntry 1 5 1 [0x6b] [0x76]).encode ++ (newEntry 2 6 2 [0x6b] []).encode) =
      [newEntry 1 5 1 [0x6b] [0x76], newEntry 2 6 2 [0x6b] []] := by
  have hput : Appended (newEntry 1 5 1 [0x6b] [0x76]) := ⟨_, _, _, _, _, by decide, by decide, rfl⟩
  have hdelete : Appended (newEntry 2 6 2 [0x6b] []) := ⟨_, _, _, _, _, by decide, by decide, rfl⟩
  have hboth : ∀ x ∈ [newEntry 1 5 1 [0x6b] [0x76], newEntry 2 6 2 [0x6b] []], Appended x :=
    List.forall_mem_cons.2 ⟨hput, List.forall_mem_singleton.2 hdelete⟩
  have h := (decodeCommandEntry_stream hput hboth []).2.2.1
  simpa [entryCodec.frames_of_none entryCodec.read_nil] using h

end RocksKV.Storage
