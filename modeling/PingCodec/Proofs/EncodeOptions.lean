import PingCodec.Proofs.AllOrNothing

/-!
# What the encode command makes of its options

What the command prints follows from the sources of a payload that its options name, from the last
value of an option and from the wish for a response.  A value that is rejected comes before a conflict
of sources, and that before a payload of the wrong size (`encode_determined`).  The order of the options
and their number count for nothing beyond that.
-/

namespace PingCodec

namespace Cli

open Outcome

/-! ## Sources -/

/-- The sources of a payload that tokens name. -/
def sources (tokens : List Token) : List EncodeOption :=
  [.payload, .shutdown, .user, .random].filter (· ∈ tokens.map Token.option)

theorem mem_sources_iff {tokens : List Token} {o : EncodeOption} :
    o ∈ sources tokens ↔ o ≠ .ack ∧ o ∈ tokens.map Token.option := by
  cases o <;> simp [sources]

namespace Token

variable {t : Token} (accepted : t.complaint? = none)

include accepted

theorem bytes?_eq_none_iff : t.bytes? = none ↔ t.option ≠ .payload := by
  cases t with
  | ack _ | shutdown | user _ _ | random _ => simp [bytes?, option]
  | payload spelling value =>
    cases read : parseHex value with
    | error e => simp [complaint?, read] at accepted
    | ok bs => simp [bytes?, option, read, Except.toOption]

theorem tag?_eq_none_iff : t.tag? = none ↔ t.option ≠ .user := by
  cases t with
  | ack _ | shutdown | payload _ _ | random _ => simp [tag?, option]
  | user spelling value =>
    cases read : parseUserTag value with
    | error e => simp [complaint?, read] at accepted
    | ok tag => simp [tag?, option, read, Except.toOption]

end Token

theorem isSome_getLast?_filterMap {α : Type} {f : Token → Option α} {o : EncodeOption}
    {tokens : List Token} (named : ∀ t ∈ tokens, f t = none ↔ t.option ≠ o) :
    (tokens.filterMap f).getLast?.isSome = decide (o ∈ tokens.map Token.option) := by
  rw [Bool.eq_iff_iff, decide_eq_true_iff, Option.isSome_iff_ne_none, ← not_iff_not, ne_eq, not_not,
    List.getLast?_eq_none_iff, List.filterMap_eq_nil_iff, List.mem_map]
  simp only [not_exists, not_and]
  exact forall₂_congr named

theorem eq_ite_of_isSome {α : Type} {x : Option α} {p : Prop} [Decidable p]
    (named : x.isSome = decide p) : x = if p then x else none := by
  split_ifs with h
  · rfl
  · rwa [decide_eq_false h, Option.isSome_eq_false_iff, Option.isNone_iff_eq_none] at named

section

variable {tokens : List Token} (accepted : ∀ t ∈ tokens, t.complaint? = none)

include accepted

theorem isSome_payload :
    (requestOf tokens).payload.isSome = decide (.payload ∈ tokens.map Token.option) :=
  isSome_getLast?_filterMap fun t mem => Token.bytes?_eq_none_iff (accepted t mem)

theorem isSome_user :
    (requestOf tokens).user.isSome = decide (.user ∈ tokens.map Token.option) :=
  isSome_getLast?_filterMap fun t mem => Token.tag?_eq_none_iff (accepted t mem)

/-- A request names as many sources as its tokens. -/
theorem sourceCount_requestOf : (requestOf tokens).sourceCount = (sources tokens).length := by
  have flag (o : EncodeOption) :
      ((if o ∈ tokens.map Token.option then some true else none) == some true) =
        decide (o ∈ tokens.map Token.option) := by
    by_cases h : o ∈ tokens.map Token.option <;> simp [h]
  have named : [(requestOf tokens).payload.isSome, (requestOf tokens).shutdown == some true,
      (requestOf tokens).user.isSome, (requestOf tokens).random == some true] =
      [.payload, .shutdown, .user, .random].map fun o => decide (o ∈ tokens.map Token.option) := by
    rw [isSome_payload accepted, isSome_user accepted, requestOf, flag, flag]
    rfl
  rw [EncodeRequest.sourceCount, named, List.count, List.countP_map, List.countP_eq_length_filter]
  simp [sources, Function.comp_def]

/-- A request has nothing of the sources that its tokens do not name. -/
theorem requestOf_eq :
    requestOf tokens =
      { ack := .ack ∈ tokens.map Token.option
        payload := if .payload ∈ sources tokens then (requestOf tokens).payload else none
        shutdown := if .shutdown ∈ sources tokens then some true else none
        user := if .user ∈ sources tokens then (requestOf tokens).user else none
        random := if .random ∈ sources tokens then some true else none } := by
  simp only [mem_sources_iff, ne_eq, reduceCtorEq, not_false_eq_true, true_and]
  rw [EncodeRequest.mk.injEq]
  exact ⟨rfl, eq_ite_of_isSome (isSome_payload accepted), rfl, eq_ite_of_isSome (isSome_user accepted),
    rfl⟩

/-- Tokens that name the same sources with the same last values make the same request. -/
theorem requestOf_congr {others : List Token} (accepted' : ∀ t ∈ others, t.complaint? = none)
    (ack : .ack ∈ others.map Token.option ↔ .ack ∈ tokens.map Token.option)
    (same : sources others = sources tokens)
    (bytes : (others.filterMap Token.bytes?).getLast? = (tokens.filterMap Token.bytes?).getLast?)
    (tag : (others.filterMap Token.tag?).getLast? = (tokens.filterMap Token.tag?).getLast?) :
    requestOf others = requestOf tokens := by
  have payload : (requestOf others).payload = (requestOf tokens).payload := bytes
  have user : (requestOf others).user = (requestOf tokens).user := tag
  rw [requestOf_eq accepted', requestOf_eq accepted, same, payload, user, decide_eq_decide.2 ack]

end

/-! ## Requests for one source -/

section

variable (ack : Bool) (draws : List Payload)

theorem resolve_bytes_of_size {bs : Bytes} (size : bs.length ≠ payloadSize) :
    EncodeRequest.resolve { ack := ack, payload := some bs } draws =
      .error (.frame (.payloadSize bs.length)) := by
  have one : EncodeRequest.sourceCount { ack := ack, payload := some bs } = 1 := rfl
  simp [EncodeRequest.resolve, one, Payload.ofBytes_of_size size]

theorem resolve_shutdown :
    EncodeRequest.resolve { ack := ack, shutdown := some true } draws = .ok (shutdownPayload, 0) :=
  rfl

theorem resolve_user (tag : UserTag) :
    EncodeRequest.resolve { ack := ack, user := some tag } draws = .ok (userPayload tag, 0) :=
  rfl

theorem resolve_random {p : Payload} {n : Nat} (drawn : Payload.firstOrdinary? draws = some (p, n)) :
    EncodeRequest.resolve { ack := ack, random := some true } draws = .ok (p, n) := by
  have one : EncodeRequest.sourceCount { ack := ack, random := some true } = 1 := rfl
  simp [EncodeRequest.resolve, one, drawn]

theorem resolve_zeros : EncodeRequest.resolve { ack := ack } draws = .ok (zeroPayload, 0) :=
  rfl

end

/-! ## Runs -/

theorem seen_failure_payloadSize (time : String) (n : Nat) :
    (Outcome.failure [(CommandError.frame (.payloadSize n)).line]).seen time =
      (1, "", "error: PING payload must be 8 bytes, got " ++ toString n ++
        " (ERR_BAD_FRAME_SIZE)\n") := by
  have message : "error: " ++ (FrameError.payloadSize n).message =
      "error: PING payload must be 8 bytes, got " ++ toString n := by
    have front : "error: PING payload must be 8 bytes, got " =
        "error: " ++ "PING payload must be 8 bytes, got " := rfl
    rw [front, String.append_assoc]
    rfl
  have code : " (ERR_BAD_FRAME_SIZE)\n" =
      " (" ++ (FrameError.payloadSize n).code.name ++ ")" ++ "\n" := rfl
  rw [seen_failure_frame, message, code]
  simp only [String.append_assoc]

/-- What is seen of a run that prints the frame of a PING. -/
def printed (ack : Bool) (payload : Bytes) : Nat × String × String :=
  (0, Hex.ofBytes ([0, 0, 8, 6, if ack then 1 else 0, 0, 0, 0, 0] ++ payload) ++ "\n", "")

section

variable {read : List String → CommandLine} (conventions : Conventions read) {env : Environment}
  {tokens : List Token} (time : String)

include conventions

theorem seen_of_rejected {line : String} (first : tokens.findSome? Token.complaint? = some line) :
    (runWith read env ("encode" :: tokens.flatMap Token.arguments)).seen time =
      (1, "", line ++ "\n") := by
  obtain ⟨e, failed, text⟩ := Token.foldlM_note_error first
  have course := conventions.encode tokens
  rw [Course.ofOptions, failed] at course
  rw [runWith_of_settled course, ← text]
  exact seen_failure time _

variable (off : env.debugEnabled = false) (accepted : ∀ t ∈ tokens, t.complaint? = none)

include off accepted

theorem seen_of_resolve_error {e : CommandError}
    (failed : (requestOf tokens).resolve env.draws = .error e) :
    (runWith read env ("encode" :: tokens.flatMap Token.arguments)).seen time =
      (Outcome.failure [e.line]).seen time := by
  rw [runWith_of_action off (read_encode conventions accepted), Action.output, failed]
  rfl

theorem seen_of_resolve {p : Payload} {n : Nat}
    (resolved : (requestOf tokens).resolve env.draws = .ok (p, n)) :
    (runWith read env ("encode" :: tokens.flatMap Token.arguments)).seen time =
      printed (requestOf tokens).ack p.toBytes := by
  have frame := Ping.frame_eq ⟨(requestOf tokens).ack, p.entries⟩
  rw [Ping.flagByte, Ping.payloadBytes_entries] at frame
  rw [runWith_of_action off (read_encode conventions accepted), output_encode resolved, printed,
    ← frame, ← joinLines_singleton]
  exact seen_success time _

theorem seen_of_conflict (two : 2 ≤ (sources tokens).length) :
    (runWith read env ("encode" :: tokens.flatMap Token.arguments)).seen time =
      (1, "", "error: Choose only one of --payload, --shutdown, --user and --random\n") := by
  have conflict : (requestOf tokens).resolve env.draws = .error .conflict := by
    rw [EncodeRequest.resolve, if_pos (by rwa [sourceCount_requestOf accepted])]
  rw [seen_of_resolve_error conventions time off accepted conflict]
  exact seen_failure time CommandError.conflict.line

theorem seen_of_payload (only : sources tokens = [.payload]) :
    ∃ bs, (requestOf tokens).payload = some bs ∧
      (runWith read env ("encode" :: tokens.flatMap Token.arguments)).seen time =
        if bs.length = 8 then printed (requestOf tokens).ack bs
        else (1, "", "error: PING payload must be 8 bytes, got " ++ toString bs.length ++
          " (ERR_BAD_FRAME_SIZE)\n") := by
  obtain ⟨bs, last⟩ : ∃ bs, (requestOf tokens).payload = some bs := by
    rw [← Option.isSome_iff_exists, isSome_payload accepted, decide_eq_true_iff]
    exact (mem_sources_iff.1 (only ▸ List.mem_cons_self)).2
  have request := requestOf_eq accepted
  simp only [only, last] at request
  refine ⟨bs, last, ?_⟩
  split_ifs with size
  · obtain ⟨p, rfl⟩ := Payload.exists_toBytes size
    exact seen_of_resolve conventions time off accepted (by rw [request]; exact resolve_payload _ p _)
  · rw [seen_of_resolve_error conventions time off accepted (by rw [request]; exact resolve_bytes_of_size _ _ size),
      seen_failure_payloadSize]

theorem seen_of_user (only : sources tokens = [.user]) :
    ∃ tag, (requestOf tokens).user = some tag ∧
      (runWith read env ("encode" :: tokens.flatMap Token.arguments)).seen time =
        printed (requestOf tokens).ack (userPayload tag).toBytes := by
  obtain ⟨tag, last⟩ : ∃ tag, (requestOf tokens).user = some tag := by
    rw [← Option.isSome_iff_exists, isSome_user accepted, decide_eq_true_iff]
    exact (mem_sources_iff.1 (only ▸ List.mem_cons_self)).2
  have request := requestOf_eq accepted
  simp only [only, last] at request
  exact ⟨tag, last, seen_of_resolve conventions time off accepted (by rw [request]; exact resolve_user _ _ tag)⟩

theorem seen_of_shutdown (only : sources tokens = [.shutdown]) :
    (runWith read env ("encode" :: tokens.flatMap Token.arguments)).seen time =
      printed (requestOf tokens).ack shutdownPayload.toBytes := by
  have request := requestOf_eq accepted
  simp only [only] at request
  exact seen_of_resolve conventions time off accepted (by rw [request]; exact resolve_shutdown _ _)

theorem seen_of_random (only : sources tokens = [.random]) {p : Payload} {n : Nat}
    (drawn : Payload.firstOrdinary? env.draws = some (p, n)) :
    (runWith read env ("encode" :: tokens.flatMap Token.arguments)).seen time =
      printed (requestOf tokens).ack p.toBytes := by
  have request := requestOf_eq accepted
  simp only [only] at request
  exact seen_of_resolve conventions time off accepted (by rw [request]; exact resolve_random _ _ drawn)

theorem seen_of_no_source (no : sources tokens = []) :
    (runWith read env ("encode" :: tokens.flatMap Token.arguments)).seen time =
      printed (requestOf tokens).ack zeroPayload.toBytes := by
  have request := requestOf_eq accepted
  simp only [no] at request
  exact seen_of_resolve conventions time off accepted (by rw [request]; exact resolve_zeros _ _)

end

/-- With the debug log off, what the encode command prints follows from the first value that is
rejected, if there is one, and otherwise from the sources that are named, from the last payload and the
last tag among the values and from the wish for a response, whatever else stands on the command line. -/
theorem encode_determined :
    Conventions .ofArguments ∧
    ∀ read, Conventions read → ∀ env : Environment, env.debug ≠ some "1" →
    ∀ (tokens : List Token) (time : String),
      let seen := (runWith read env ("encode" :: tokens.flatMap Token.arguments)).seen time
      let ack := decide (.ack ∈ tokens.map Token.option)
      (∀ line, tokens.findSome? Token.complaint? = some line → seen = (1, "", line ++ "\n")) ∧
      (tokens.findSome? Token.complaint? = none →
        (2 ≤ (sources tokens).length →
          seen = (1, "", "error: Choose only one of --payload, --shutdown, --user and --random\n")) ∧
        (sources tokens = [.payload] → ∃ bs, (tokens.filterMap Token.bytes?).getLast? = some bs ∧
          seen =
            if bs.length = 8 then printed ack bs
            else (1, "", "error: PING payload must be 8 bytes, got " ++ toString bs.length ++
              " (ERR_BAD_FRAME_SIZE)\n")) ∧
        (sources tokens = [.shutdown] → seen = printed ack shutdownPayload.toBytes) ∧
        (sources tokens = [.user] → ∃ tag, (tokens.filterMap Token.tag?).getLast? = some tag ∧
          seen = printed ack (userPayload tag).toBytes) ∧
        (sources tokens = [.random] → ∀ p n, Payload.firstOrdinary? env.draws = some (p, n) →
          seen = printed ack p.toBytes) ∧
        (sources tokens = [] → seen = printed ack [0, 0, 0, 0, 0, 0, 0, 0]) ∧
        ∀ others : List Token, others.findSome? Token.complaint? = none →
          (.ack ∈ others.map Token.option ↔ .ack ∈ tokens.map Token.option) →
          sources others = sources tokens →
          (others.filterMap Token.bytes?).getLast? = (tokens.filterMap Token.bytes?).getLast? →
          (others.filterMap Token.tag?).getLast? = (tokens.filterMap Token.tag?).getLast? →
          runWith read env ("encode" :: others.flatMap Token.arguments) =
            runWith read env ("encode" :: tokens.flatMap Token.arguments)) := by
  refine ⟨conventions_ofArguments, fun read conventions env off tokens time =>
    ⟨fun line first => seen_of_rejected conventions time first, fun none => ?_⟩⟩
  have off := (debugEnabled_eq_false_iff env).2 off
  have accepted := List.findSome?_eq_none_iff.1 none
  refine ⟨seen_of_conflict conventions time off accepted,
    seen_of_payload conventions time off accepted,
    seen_of_shutdown conventions time off accepted, seen_of_user conventions time off accepted,
    fun only p n drawn => seen_of_random conventions time off accepted only drawn,
    seen_of_no_source conventions time off accepted, fun others none' ack same bytes tag => ?_⟩
  have accepted' := List.findSome?_eq_none_iff.1 none'
  rw [runWith_of_action off (read_encode conventions accepted),
    runWith_of_action off (read_encode conventions accepted'),
    requestOf_congr accepted accepted' ack same bytes tag]

/-- Of two values that are rejected the first one is complained about; a user tag next to a payload is a
conflict, though the payload has the wrong size; and of two tags the last one counts. -/
theorem encode_determined_user :
    (run {} ["encode", "-u", "0", "-p", "zz", "--user=2"]).seen "" =
      (1, "", "error: option '-p, --payload <hex>' argument 'zz' is invalid. " ++
        "Not a hex byte string: \"zz\"" ++ "\n") ∧
    (run {} ["encode", "--payload=00", "--user", "0"]).seen "" =
      (1, "", "error: Choose only one of --payload, --shutdown, --user and --random\n") ∧
    (run {} ["encode", "--user=1", "-a", "-u", "0"]).seen "" =
      (0, "0000080601000000003b7cdb7a0b871600\n", "") := by
  have every := encode_determined.2 .ofArguments conventions_ofArguments {} (by decide)
  refine ⟨?_, ?_, ?_⟩
  · exact (every
      [.user .short ⟨"0", by decide⟩, .payload .short ⟨"zz", by decide⟩,
        .user .assigned ⟨"2", by decide⟩] "").1
      "error: option '-p, --payload <hex>' argument 'zz' is invalid. Not a hex byte string: \"zz\""
      (by decide +kernel)
  · exact ((every
      [.payload .assigned ⟨"00", by decide⟩, .user .long ⟨"0", by decide⟩] "").2
      (by decide +kernel)).1 (by decide)
  · obtain ⟨tag, last, seen⟩ := ((every
      [.user .assigned ⟨"1", by decide⟩, .ack true, .user .short ⟨"0", by decide⟩] "").2
      (by decide +kernel)).2.2.2.1 (by decide)
    obtain rfl : 0 = tag := Option.some.inj last
    exact seen.trans (by decide +kernel)

end Cli

end PingCodec
