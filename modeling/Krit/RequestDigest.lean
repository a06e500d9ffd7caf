import Mathlib.Data.List.Forall2
import Krit.Lib.Framing
import Krit.Basic

/-!
# Digests of requests

Replayed calls and idempotent requests are recognized by a digest of the request.  The
hash is fed the parts of the request, each after its length: method, path and query, the
name and the value of every header in order, and the body.  Names are lowered, so that
requests which differ in the case of header names are the same request; the idempotency
digest leaves the key itself out.
-/

namespace Krit.Policy

/-- A string of the host language, whose length in bytes fits a signed word. -/
structure Text where
  text : String
  fits : text.utf8ByteSize < 2 ^ 63
  deriving DecidableEq

namespace Text

@[ext] theorem ext {left right : Text} (heq : left.text = right.text) : left = right := by
  cases left
  cases right
  simp only [mk.injEq]
  exact heq

def asBytes (text : Text) : List UInt8 := text.text.toByteArray.data.toList

theorem length_asBytes (text : Text) : text.asBytes.length < 2 ^ 63 := text.fits

theorem asBytes_injective {left right : Text} (heq : left.asBytes = right.asBytes) :
    left = right := by
  unfold asBytes at heq
  refine Text.ext (String.toByteArray_inj.mp ?_)
  rw [ByteArray.ext_iff]
  exact Array.toList_inj.mp heq

end Text

theorem utf8Size_toLower (char : Char) : char.toLower.utf8Size = char.utf8Size := by
  unfold Char.toLower
  split
  · rename_i hupper
    have hlow : char.val.toNat ≤ 90 := UInt32.le_iff_toNat_le.mp hupper.2
    have hsize : char.utf8Size = 1 := by
      unfold Char.utf8Size
      rw [if_pos]
      rw [UInt32.le_iff_toNat_le]
      have hbound : char.val.toNat ≤ 127 := by omega
      exact hbound
    rw [hsize]
    unfold Char.utf8Size
    rw [if_pos]
    rw [UInt32.le_iff_toNat_le, UInt32.toNat_add]
    have hshift : (char.val.toNat + 32) % 2 ^ 32 ≤ 127 := by omega
    exact hshift
  · rfl

theorem utf8ByteSize_ofList (chars : List Char) :
    (String.ofList chars).utf8ByteSize = (chars.map Char.utf8Size).sum := by
  induction chars with
  | nil => rfl
  | cons char rest ih =>
    rw [String.ofList_cons]
    rw [String.utf8ByteSize_append, String.utf8ByteSize_singleton, ih, List.map_cons, List.sum_cons]

theorem utf8ByteSize_toLower (text : String) : text.toLower.utf8ByteSize = text.utf8ByteSize := by
  have hlower : text.toLower = String.ofList (text.toList.map Char.toLower) := by
    rw [← String.toList_inj, String.toList_ofList]
    exact String.toList_map
  have hsizes : (text.toList.map Char.toLower).map Char.utf8Size =
      text.toList.map Char.utf8Size := by
    rw [List.map_map]
    refine List.map_congr_left ?_
    intro char _
    exact utf8Size_toLower char
  rw [hlower, utf8ByteSize_ofList, hsizes, ← utf8ByteSize_ofList, String.ofList_toList]

def Text.toAsciiLowercase (text : Text) : Text where
  text := text.text.toLower
  fits := by
    rw [utf8ByteSize_toLower]
    exact text.fits

/-! ## Requests -/

structure HttpHeader where
  name : Text
  value : Text
  deriving DecidableEq

structure HttpRequest where
  method : Text
  path : Text
  query : Text
  headers : List HttpHeader
  body : Text
  deriving DecidableEq

/-- The header that carries the key of an idempotent request, in any case. -/
def HttpHeader.isIdempotencyKey (header : HttpHeader) : Bool :=
  header.name.toAsciiLowercase.text == "idempotency-key"

/-- Equal names up to case, and equal values. -/
def HttpHeader.Same (left right : HttpHeader) : Prop :=
  left.name.toAsciiLowercase = right.name.toAsciiLowercase ∧ left.value = right.value

/-- Equal up to the case of header names. -/
structure HttpRequest.Same (left right : HttpRequest) : Prop where
  method : left.method = right.method
  path : left.path = right.path
  query : left.query = right.query
  headers : List.Forall₂ HttpHeader.Same left.headers right.headers
  body : left.body = right.body

def HttpRequest.withoutIdempotencyKey (request : HttpRequest) : HttpRequest :=
  { request with headers := request.headers.filter fun header => !header.isIdempotencyKey }

/-! ## The stream that is hashed

A hasher is the bytes that it has been fed. -/

def hashPart (hasher bytes : List UInt8) : List UInt8 :=
  hasher ++ Framing.littleEndian 8 bytes.length ++ bytes

def hashHeader (omitIdempotencyKey : Bool) (hasher : List UInt8) (header : HttpHeader) :
    List UInt8 :=
  let normalized := header.name.toAsciiLowercase
  if omitIdempotencyKey && normalized.text == "idempotency-key" then hasher
  else hashPart (hashPart hasher normalized.asBytes) header.value.asBytes

def hashRequest (request : HttpRequest) (omitIdempotencyKey : Bool) : List UInt8 :=
  let hasher := hashPart [] request.method.asBytes
  let hasher := hashPart hasher request.path.asBytes
  let hasher := hashPart hasher request.query.asBytes
  let hasher := request.headers.foldl (hashHeader omitIdempotencyKey) hasher
  hashPart hasher request.body.asBytes

section Digests

variable {δ : Type} (digest : List UInt8 → δ)

def requestDigest (request : HttpRequest) : δ := digest (hashRequest request true)

def exactRequestDigest (request : HttpRequest) : δ := digest (hashRequest request false)

end Digests

/-! ## The parts of the stream -/

def HttpHeader.parts (header : HttpHeader) : List Text :=
  [header.name.toAsciiLowercase, header.value]

/-- The parts of a request, in the order in which they are hashed. -/
def HttpRequest.parts (request : HttpRequest) : List Text :=
  [request.method, request.path, request.query] ++
    request.headers.flatMap HttpHeader.parts ++ [request.body]

theorem hashPart_eq (hasher bytes : List UInt8) :
    hashPart hasher bytes = hasher ++ Framing.frame 8 bytes := by
  unfold hashPart Framing.frame
  rw [List.append_assoc]

/-- The headers that are not left out are hashed one after the other. -/
theorem foldl_hashHeader (omitIdempotencyKey : Bool) (headers : List HttpHeader)
    (hasher : List UInt8) :
    headers.foldl (hashHeader omitIdempotencyKey) hasher =
      hasher ++ Framing.frames 8 (((headers.filter fun header =>
        !(omitIdempotencyKey && header.isIdempotencyKey)).flatMap HttpHeader.parts).map
          Text.asBytes) := by
  induction headers generalizing hasher with
  | nil => simp
  | cons header rest ih =>
    rw [List.foldl_cons, ih]
    by_cases homit : (omitIdempotencyKey && header.isIdempotencyKey) = true
    · have hskip : hashHeader omitIdempotencyKey hasher header = hasher := if_pos homit
      rw [hskip, List.filter_cons_of_neg (by simp [homit])]
    · have hhash : hashHeader omitIdempotencyKey hasher header =
          hashPart (hashPart hasher header.name.toAsciiLowercase.asBytes)
            header.value.asBytes := if_neg homit
      rw [hhash, List.filter_cons_of_pos (by simp [homit]), hashPart_eq, hashPart_eq,
        List.flatMap_cons, List.map_append, Framing.frames_append]
      simp [HttpHeader.parts]

theorem hashRequest_eq (request : HttpRequest) (omitIdempotencyKey : Bool) :
    hashRequest request omitIdempotencyKey =
      Framing.frames 8 (HttpRequest.parts
        { request with
          headers := request.headers.filter fun header =>
            !(omitIdempotencyKey && header.isIdempotencyKey) } |>.map Text.asBytes) := by
  unfold hashRequest HttpRequest.parts
  simp only [hashPart_eq, foldl_hashHeader, List.map_append, Framing.frames_append]
  simp

theorem hashRequest_exact (request : HttpRequest) :
    hashRequest request false = Framing.frames 8 (request.parts.map Text.asBytes) := by
  rw [hashRequest_eq]
  simp

theorem hashRequest_omitting (request : HttpRequest) :
    hashRequest request true =
      Framing.frames 8 (request.withoutIdempotencyKey.parts.map Text.asBytes) := by
  rw [hashRequest_eq]
  simp [HttpRequest.withoutIdempotencyKey]

theorem parts_injective {left right : List Text}
    (heq : Framing.frames 8 (left.map Text.asBytes) = Framing.frames 8 (right.map Text.asBytes)) :
    left = right := by
  have hfits : ∀ (texts : List Text), ∀ part ∈ texts.map Text.asBytes, part.length < 256 ^ 8 := by
    intro texts part hpart
    obtain ⟨text, -, hbytes⟩ := List.mem_map.mp hpart
    rw [← hbytes]
    exact text.length_asBytes.trans (by norm_num)
  have hparts := Framing.frames_injective (by norm_num) (hfits left) (hfits right) heq
  exact List.map_injective_iff.mpr (fun _ _ hbytes => Text.asBytes_injective hbytes) hparts

/-- Names and values alternate, so that the parts of two lists of headers agree only
when the headers do. -/
theorem headerParts_eq_iff {left right : List HttpHeader} :
    left.flatMap HttpHeader.parts = right.flatMap HttpHeader.parts ↔
      List.Forall₂ HttpHeader.Same left right := by
  induction left generalizing right with
  | nil =>
    cases right with
    | nil => simp
    | cons header rest => simp [HttpHeader.parts]
  | cons header rest ih =>
    cases right with
    | nil => simp [HttpHeader.parts]
    | cons header' rest' =>
      simp only [List.flatMap_cons, HttpHeader.parts, List.cons_append, List.nil_append,
        List.cons.injEq, List.forall₂_cons, HttpHeader.Same, ← ih]
      tauto

theorem parts_eq_iff {left right : HttpRequest} : left.parts = right.parts ↔ left.Same right := by
  unfold HttpRequest.parts
  constructor
  · intro heq
    have hlast := List.append_inj' heq rfl
    obtain ⟨hinit, hbody⟩ := hlast
    have hfirst := List.append_inj hinit rfl
    obtain ⟨hline, hheaders⟩ := hfirst
    simp only [List.cons.injEq, and_true] at hline hbody
    exact ⟨hline.1, hline.2.1, hline.2.2, headerParts_eq_iff.mp hheaders, hbody⟩
  · intro hsame
    rw [hsame.method, hsame.path, hsame.query, hsame.body, headerParts_eq_iff.mpr hsame.headers]

/-- Two requests are fed to the hash as one stream exactly when they are equal up to the
case of header names, the idempotency keys left out where the digest leaves them out; so
that a digest without collisions never confuses two requests. -/
theorem request_streams_injective (left right : HttpRequest) :
    (hashRequest left false = hashRequest right false ↔ left.Same right) ∧
    (hashRequest left true = hashRequest right true ↔
      left.withoutIdempotencyKey.Same right.withoutIdempotencyKey) ∧
    ∀ (δ : Type) (digest : List UInt8 → δ), Function.Injective digest →
      (exactRequestDigest digest left = exactRequestDigest digest right ↔ left.Same right) ∧
      (requestDigest digest left = requestDigest digest right ↔
        left.withoutIdempotencyKey.Same right.withoutIdempotencyKey) := by
  have hexact : hashRequest left false = hashRequest right false ↔ left.Same right := by
    rw [hashRequest_exact, hashRequest_exact, ← parts_eq_iff]
    constructor
    · exact parts_injective
    · intro heq
      rw [heq]
  have homitting : hashRequest left true = hashRequest right true ↔
      left.withoutIdempotencyKey.Same right.withoutIdempotencyKey := by
    rw [hashRequest_omitting, hashRequest_omitting, ← parts_eq_iff]
    constructor
    · exact parts_injective
    · intro heq
      rw [heq]
  refine ⟨hexact, homitting, ?_⟩
  intro δ digest hdigest
  unfold exactRequestDigest requestDigest
  rw [hdigest.eq_iff, hdigest.eq_iff]
  exact ⟨hexact, homitting⟩

end Krit.Policy
