import PingCodec.Proofs.Conventions
import PingCodec.Proofs.HexRoundTrip
import PingCodec.Proofs.IgnoredBits

/-!
# What the commands agree on

By the conventions of command lines a command that takes a hex text is carried out on the bytes that the
text spells (`read_decode`, `read_classify`), and a request for a payload prints the frame of the PING
with these bytes (`runWith_payload`).  Since frames are printed in the plain form of hex text and read
in any form, each command takes up what another one has printed.
-/

namespace PingCodec

/-! ## PINGs that carry a payload -/

theorem Hex.encode_entries (p : Payload) : Hex.encode p.entries.toList = Hex.ofBytes p.toBytes := by
  rw [ofBytes, Payload.entries, Vector.toList_map]
  rfl

theorem Ping.onWire_entries (ack : Bool) (p : Payload) :
    (Ping.mk ack p.entries).onWire = ⟨ack, p.entries⟩ := by
  simp [onWire, Payload.entries]

/-- The description of a PING that carries a payload. -/
theorem Ping.description_entries (ack : Bool) (p : Payload) :
    (Ping.mk ack p.entries).description =
      ["ack: " ++ Json.boolText ack, "payload: " ++ Hex.ofBytes p.toBytes,
        "class: " ++ p.classify.text] := by
  rw [description, Hex.encode_entries]
  rfl

namespace Cli

/-! ## Command lines -/

/-- A text that is read as hex does not begin with a dash. -/
theorem isWord_of_parseHex {t : String} {bs : Bytes} (h : parseHex t = .ok bs) : IsWord t := by
  intro dashed
  obtain ⟨cs, hcs⟩ := List.head?_eq_some_iff.1 dashed
  have spelled := Hex.decode_eq_ok_iff.1 (Hex.parseHex_eq_ok_iff.1 h)
  have dash : 0x2d ∈ Text.units (Text.compact t.toList) := by
    rw [hcs]
    exact List.mem_cons_self
  obtain ⟨v, hv⟩ := ((Hex.exists_spells_iff _).1 ⟨bs, spelled⟩).2 _ dash
  rw [Hex.isDigitOf_iff] at hv
  simp at hv
  omega

theorem Course.ofHex_of_parseHex (action : Bytes → Action) {t : String} {bs : Bytes}
    (h : parseHex t = .ok bs) : ofHex action t = .action (action bs) := by
  rw [ofHex, h]

section

variable {read : List String → CommandLine} (conventions : Conventions read)

include conventions

theorem read_decode {t : String} {bs : Bytes} (h : parseHex t = .ok bs) :
    read ["decode", t] = ⟨false, .action (.decode bs)⟩ := by
  rw [conventions.decode (isWord_of_parseHex h), Course.ofHex_of_parseHex _ h]

theorem read_classify {t : String} {bs : Bytes} (h : parseHex t = .ok bs) :
    read ["classify", t] = ⟨false, .action (.classify bs)⟩ := by
  rw [conventions.classify (isWord_of_parseHex h), Course.ofHex_of_parseHex _ h]

/-- Values that are all accepted ask for the request that they add up to. -/
theorem read_encode {tokens : List Token} (accepted : ∀ t ∈ tokens, t.complaint? = none) :
    read ("encode" :: tokens.flatMap Token.arguments) =
      ⟨false, .action (.encode (requestOf tokens))⟩ := by
  rw [conventions.encode, Course.ofOptions, Token.foldlM_note accepted]

end

/-- The arguments that ask for a payload, of a probe or of a response. -/
def payloadArguments (ack : Bool) (text : String) : List String :=
  (if ack then ["--ack"] else []) ++ ["--payload", text]

/-- Those arguments as tokens. -/
def payloadTokens (ack : Bool) (value : Word) : List Token :=
  (if ack then [.ack false] else []) ++ [.payload .long value]

theorem payloadArguments_eq (ack : Bool) (value : Word) :
    payloadArguments ack value = (payloadTokens ack value).flatMap Token.arguments := by
  cases ack <;> rfl

section

variable {value : Word} {bs : Bytes} (h : parseHex value = .ok bs) (ack : Bool)

include h

theorem accepted_payloadTokens : ∀ t ∈ payloadTokens ack value, t.complaint? = none := by
  cases ack <;> simp [payloadTokens, Token.complaint?, h]

theorem requestOf_payloadTokens :
    requestOf (payloadTokens ack value) = { ack := ack, payload := some bs } := by
  cases ack <;>
    simp [payloadTokens, requestOf, Token.option, Token.bytes?, Token.tag?, h, Except.toOption]

end

/-! ## Results -/

theorem resolve_payload (ack : Bool) (p : Payload) (draws : List Payload) :
    EncodeRequest.resolve { ack := ack, payload := some p.toBytes } draws = .ok (p, 0) := by
  have one : EncodeRequest.sourceCount { ack := ack, payload := some p.toBytes } = 1 := rfl
  simp [EncodeRequest.resolve, one, Payload.ofBytes_toBytes]

theorem output_encode {request : EncodeRequest} {draws : List Payload} {p : Payload} {n : Nat}
    (resolved : request.resolve draws = .ok (p, n)) :
    (Action.encode request).output draws =
      .ok [Hex.ofBytes (Ping.mk request.ack p.entries).frame] := by
  rw [Action.output, resolved]
  rfl

theorem output_decode_frame (ack : Bool) (p : Payload) (draws : List Payload) :
    (Action.decode (Ping.mk ack p.entries).frame).output draws =
      .ok (Ping.mk ack p.entries).description := by
  rw [Action.output, Ping.ofFrame_frame (View.toBytes_whole _), Ping.onWire_entries]
  rfl

theorem output_classify_toBytes (p : Payload) (draws : List Payload) :
    (Action.classify p.toBytes).output draws = .ok [p.classify.text] := by
  rw [Action.output, Payload.ofBytes_toBytes]
  rfl

/-! ## Agreement -/

/-- A request for a payload is carried out on the payload that the text spells, whatever the draws. -/
theorem runWith_payload {read : List String → CommandLine} (conventions : Conventions read)
    {env : Environment} (off : env.debugEnabled = false) (ack : Bool) {text : String} {p : Payload}
    (h : parseHex text = .ok p.toBytes) :
    runWith read env ("encode" :: payloadArguments ack text) =
      .success [Hex.ofBytes (Ping.mk ack p.entries).frame] := by
  obtain ⟨value, rfl⟩ : ∃ value : Word, value.1 = text := ⟨⟨text, isWord_of_parseHex h⟩, rfl⟩
  have course := read_encode conventions (accepted_payloadTokens h ack)
  rw [← payloadArguments_eq, requestOf_payloadTokens h] at course
  rw [runWith_of_action off course, output_encode (resolve_payload ack p _)]

/-- With the debug log off, all commands agree on every payload, however its hex text is written. -/
theorem commands_agree :
    Conventions .ofArguments ∧
    ∀ read, Conventions read → ∀ env : Environment, env.debugEnabled = false →
    ∀ (ack : Bool) (p : Payload) (text : String), parseHex text = .ok p.toBytes →
      let frame := Hex.ofBytes (Ping.mk ack p.entries).frame
      let payload := Hex.ofBytes p.toBytes
      let name := p.classify.text
      runWith read env ("encode" :: payloadArguments ack text) = .success [frame] ∧
      frame.length = 34 ∧ (∀ c ∈ frame.toList, c ∈ Hex.lowerDigits) ∧
      (∀ t, Hex.plain t = Hex.plain frame →
        runWith read env ["decode", t] =
          .success ["ack: " ++ Json.boolText ack, "payload: " ++ payload, "class: " ++ name]) ∧
      payload.length = 16 ∧ (∀ c ∈ payload.toList, c ∈ Hex.lowerDigits) ∧
      runWith read env ["classify", text] = .success [name] ∧
      runWith read env ("encode" :: payloadArguments ack payload) = .success [frame] := by
  refine ⟨conventions_ofArguments, fun read conventions env off ack p text h => ?_⟩
  have written (bs : Bytes) : parseHex (Hex.ofBytes bs) = .ok bs :=
    Hex.parseHex_eq_ok_iff.2 (Hex.decode_ofBytes bs)
  have size : p.toBytes.length = 8 := Vector.length_toList
  refine ⟨runWith_payload conventions off ack h, ?_, fun c => Hex.mem_ofBytes, fun t same => ?_, ?_,
    fun c => Hex.mem_ofBytes, ?_, runWith_payload conventions off ack (written _)⟩
  · rw [Hex.length_ofBytes, Ping.length_frame]
  · have spelled : parseHex t = .ok (Ping.mk ack p.entries).frame := by
      rw [Hex.parseHex_eq_ok_iff, Hex.decode_congr same, Hex.decode_ofBytes]
    rw [runWith_of_action off (read_decode conventions spelled), output_decode_frame,
      Ping.description_entries]
  · rw [Hex.length_ofBytes, size]
  · rw [runWith_of_action off (read_classify conventions h), output_classify_toBytes]

/-- A response with the shutdown payload, asked for in mixed case with blanks inside a digit pair. -/
theorem commands_agree_shutdown :
    parseHex "0B 7b\ta2F 08b9\nBfE54" = .ok shutdownPayload.toBytes ∧
    run {} ["encode", "--ack", "--payload", "0B 7b\ta2F 08b9\nBfE54"] =
      .success ["0000080601000000000b7ba2f08b9bfe54"] ∧
    run {} ["decode", "0000080601000000000B7BA2F08B9BFE54\n"] =
      .success ["ack: true", "payload: 0b7ba2f08b9bfe54", "class: shutdown"] ∧
    run {} ["classify", "0B 7b\ta2F 08b9\nBfE54"] = .success ["shutdown"] := by
  have h : parseHex "0B 7b\ta2F 08b9\nBfE54" = .ok shutdownPayload.toBytes := by decide
  have frame : Hex.ofBytes (Ping.mk true shutdownPayload.entries).frame =
      "0000080601000000000b7ba2f08b9bfe54" := by decide +kernel
  have payload : Hex.ofBytes shutdownPayload.toBytes = "0b7ba2f08b9bfe54" := by decide
  have name : shutdownPayload.classify.text = "shutdown" := by decide +kernel
  have agree := commands_agree.2 .ofArguments conventions_ofArguments {} rfl true _ _ h
  rw [frame, payload, name] at agree
  obtain ⟨encoded, -, -, decoded, -, -, classified, -⟩ := agree
  exact ⟨h, encoded, decoded _ (by decide), classified⟩

end Cli

end PingCodec
