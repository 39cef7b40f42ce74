import DefinitionFiles.Rpc.Message
import DefinitionFiles.Proofs.Json.Writing
import DefinitionFiles.Proofs.Rpc.Envelope

/-!
# Notifications that are read back

Method and parameters of a notification are escaped when it is written, and the parameters are put
into the object of the message. Who reads the message finds the method as it was, and parameters
that denote the same value. A message is itself a container around its parameters, so these may
nest one level less than a text that is read on its own; with one level more they are written, but
the message is not read.
-/

namespace DefinitionFiles

namespace Sink

/-- Sends messages up to the first one that cannot be sent. -/
def sendAll (s : Sink) : List Rpc.Outgoing → Sink × Option Rpc.SendError
  | [] => (s, none)
  | m :: rest =>
      match s.send m with
      | (s, none) => s.sendAll rest
      | (s, some e) => (s, some e)

end Sink

namespace Rpc

/-- Reads a stream up to the first place where there is no frame: what is read of each body, and why
there is no further one. -/
def Message.readAll (source : Source) : List (Option Message) × FrameError :=
  ((Frame.readAll source).1.map parse?, (Frame.readAll source).2)

/-- Parameters by their text. They nest less deep than a text may on its own, since they are to
stand inside of a message. -/
structure Params where
  text : Bytes
  value : Json
  parse_text : Json.parse? text = some value
  height_lt : value.height < Json.maxDepth

/-- The object of a notification. -/
def notification (method : Bytes) (params? : Option Json) : List (String × Json) :=
  Outgoing.version :: ("method", .text method) :: (params?.map fun j => ("params", j)).toList

/-- A notification that can be sent. The length of its text is a machine integer, as that of every
text in memory. -/
structure Notice where
  method : Bytes
  params? : Option Params
  isValid_method : Utf8.isValid method = true
  length_lt : (Json.record (notification method (params?.map Params.value))).render.length < 2 ^ 63

namespace Notice

def outgoing (n : Notice) : Outgoing :=
  .notification n.method (n.params?.map fun p => .json p.value)

/-- Whether a message is what a notification was meant to say. -/
structure Conveys (n : Notice) (m : Message) : Prop where
  version : m.version = utf8 "2.0"
  id : m.id = []
  isNotification : m.isNotification = true
  method : m.method = n.method
  absent : m.params = [] ↔ n.params? = none
  params : ∀ p ∈ n.params?, ∃ j, Json.parse? m.params = some j ∧ j.meaning = p.value.meaning

end Notice

/-! ## Bodies -/

theorem toJson_notification (method : Bytes) (params? : Option Json) :
    (Outgoing.notification method (params?.map .json)).toJson =
      .ok (.record (notification method params?)) := by
  cases params? <;> rfl

theorem render_record_ne_nil (members : List (String × Json)) :
    (Json.record members).render ≠ [] := by
  simp [Json.record, Json.render, Json.write_object]

theorem contents_of_escape_eq {s : Bytes} (h : Json.escape s = s) : Json.Contents s :=
  h ▸ (Json.contents_escape s).1

theorem wellFormed_text (s : Bytes) : (Json.text s).WellFormed :=
  .string (Json.contents_escape s).1

theorem wellFormed_notification (method : Bytes) {params? : Option Json}
    (hparams : ∀ j ∈ params?, j.WellFormed) :
    (Json.record (notification method params?)).WellFormed := by
  have hversion : Json.Contents (utf8 "jsonrpc") := contents_of_escape_eq (by decide +kernel)
  have hmethod : Json.Contents (utf8 "method") := contents_of_escape_eq (by decide +kernel)
  have hname : Json.Contents (utf8 "params") := contents_of_escape_eq (by decide +kernel)
  cases params? with
  | none =>
      apply Json.WellFormed.object
      · simp [notification, Outgoing.version, hversion, hmethod]
      · simp [notification, Outgoing.version, wellFormed_text]
  | some j =>
      apply Json.WellFormed.object
      · simp [notification, Outgoing.version, hversion, hmethod, hname]
      · simp [notification, Outgoing.version, wellFormed_text, hparams j rfl]

theorem height_notification (method : Bytes) (params? : Option Json) :
    (Json.record (notification method params?)).height = (params?.map Json.height).getD 0 + 1 := by
  cases params? <;>
    simp [notification, Outgoing.version, Json.record, Json.text, Json.height, Json.membersHeight]

namespace Message

theorem text?_write {s : Bytes} (h : Utf8.isValid s = true) (level : Nat) (old : Bytes) :
    text? ((Json.text s).write .compact level) old = some s := by
  have hread := (wellFormed_text s).parse?_write (Nat.zero_le _) level
  have hcontents := (Json.contents_escape s).1
  rw [text?, hread, Option.bind_some]
  simp [Json.text, Json.guarded, Json.mapStrings, Json.Update.text, hcontents.guardMarkup.2,
    Json.unescape_escape h]

theorem member_jsonrpc (m : Message) (source : Bytes) :
    m.member (Json.unescape (Json.guardMarkup (utf8 "jsonrpc"))) source =
      (text? source m.version).map fun version => { m with version := version } :=
  if_pos (by decide +kernel)

theorem member_method (m : Message) (source : Bytes) :
    m.member (Json.unescape (Json.guardMarkup (utf8 "method"))) source =
      (text? source m.method).map fun method => { m with method := method } := by
  rw [member, if_neg (by decide +kernel), if_neg (by decide +kernel), if_pos (by decide +kernel)]

theorem member_params (m : Message) (source : Bytes) :
    m.member (Json.unescape (Json.guardMarkup (utf8 "params"))) source =
      some { m with params := source } := by
  rw [member, if_neg (by decide +kernel), if_neg (by decide +kernel), if_neg (by decide +kernel),
    if_pos (by decide +kernel)]

/-- The message that is read from the object of a notification. -/
def ofNotification (method : Bytes) (params? : Option Json) : Message where
  version := utf8 "2.0"
  method := method
  params := (params?.map (Json.write .compact 1)).getD []

theorem members_notification {method : Bytes} (hmethod : Utf8.isValid method = true)
    (params? : Option Json) :
    members {} ((notification method params?).map fun member =>
      (Json.guardMarkup (utf8 member.1), member.2.write .compact 1)) =
        some (ofNotification method params?) := by
  have hversion : Utf8.isValid (utf8 "2.0") = true := by decide +kernel
  cases params? with
  | none =>
      simp [notification, Outgoing.version, members, member_jsonrpc, member_method,
        text?_write hversion, text?_write hmethod, ofNotification]
  | some j =>
      simp [notification, Outgoing.version, members, member_jsonrpc, member_method, member_params,
        text?_write hversion, text?_write hmethod, ofNotification]

theorem parse?_notification {method : Bytes} (hmethod : Utf8.isValid method = true)
    {params? : Option Json} (hparams : ∀ j ∈ params?, j.WellFormed ∧ j.height < Json.maxDepth) :
    parse? (Json.record (notification method params?)).render =
      some (ofNotification method params?) := by
  have hwritten := wellFormed_notification method fun j hj => (hparams j hj).1
  have hheight : (Json.record (notification method params?)).height ≤ Json.maxDepth := by
    rw [height_notification]
    cases params? with
    | none => decide
    | some j => exact (hparams j rfl).2
  have hsources := Json.sources?_render hwritten hheight
  rw [parse?]
  simp only [Json.record, hsources, List.map_map]
  exact members_notification hmethod params?

end Message

/-! ## Streams -/

namespace Notice

def json (n : Notice) : Json :=
  .record (notification n.method (n.params?.map Params.value))

def body (n : Notice) : Body where
  bytes := n.json.render
  ne_nil := render_record_ne_nil _
  length_lt := n.length_lt

/-- The message that is read from a notification. -/
def message (n : Notice) : Message :=
  .ofNotification n.method (n.params?.map Params.value)

theorem parse?_body (n : Notice) : Message.parse? n.body.bytes = some n.message := by
  apply Message.parse?_notification n.isValid_method
  intro j hj
  obtain ⟨p, -, rfl⟩ := Option.mem_map.mp hj
  exact ⟨Json.wellFormed_of_parse? p.parse_text, p.height_lt⟩

theorem conveys (n : Notice) : n.Conveys n.message := by
  have hread : ∀ p ∈ n.params?, Json.parse? (p.value.write .compact 1) = some p.value.guarded := by
    intro p _
    exact (Json.wellFormed_of_parse? p.parse_text).parse?_write (Nat.le_of_lt p.height_lt) 1
  refine ⟨rfl, rfl, rfl, rfl, ?_, ?_⟩
  · cases hparams : n.params? with
    | none => simp [message, Message.ofNotification, hparams]
    | some p =>
        have hwritten : p.value.write .compact 1 ≠ [] := by
          intro hempty
          have hnothing := hread p hparams
          rw [hempty] at hnothing
          cases hnothing
        simpa [message, Message.ofNotification, hparams] using hwritten
  · intro p hp
    refine ⟨p.value.guarded, ?_, (Json.wellFormed_of_parse? p.parse_text).meaning_guarded⟩
    rw [Option.mem_def] at hp
    simpa [message, Message.ofNotification, hp] using hread p hp

end Notice

end Rpc

namespace Sink

open Rpc

theorem toJson_notice (n : Notice) : n.outgoing.toJson = .ok n.json := by
  have hjson := toJson_notification n.method (n.params?.map Params.value)
  rwa [Option.map_map] at hjson

theorem send_eq_of_unlimited {s : Sink} (h : s.capacity? = none) {m : Outgoing} {j : Json}
    (hjson : m.toJson = .ok j) : s.send m = ((s.writeFrame j.render).1, none) := by
  refine Prod.ext ?_ (send_of_unlimited h hjson).1
  simp only [send, hjson]

theorem sendAll_outgoing {s : Sink} (h : s.capacity? = none) (notices : List Notice) :
    s.sendAll (notices.map Notice.outgoing) =
      (Frame.writeAll s (notices.map Notice.body), none) := by
  induction notices generalizing s with
  | nil => rfl
  | cons n notices ih =>
      have hsend := send_eq_of_unlimited h (toJson_notice n)
      have hunlimited := (send_of_unlimited h (toJson_notice n)).2
      rw [hsend] at hunlimited
      rw [List.map_cons, sendAll, hsend]
      exact ih hunlimited

end Sink

namespace Rpc

/-- Bodies that were written are read back one by one, whatever stands behind them. -/
theorem Frame.readAll_output_writeAll (bodies : List Body) (more : Bytes)
    (failure? : Option Bytes) :
    readAll ⟨(writeAll {} bodies).output ++ more, failure?⟩ =
      (bodies.map Body.bytes ++ (readAll ⟨more, failure?⟩).1, (readAll ⟨more, failure?⟩).2) := by
  have houtput : (writeAll {} bodies).output =
      (bodies.map Envelope.plain).flatMap Envelope.bytes := by
    have hwritten := output_writeAll {} rfl bodies
    simpa [Envelope.bytes_plain, List.flatMap_map, Sink.output] using hwritten
  rw [houtput, Envelope.readAll_flatMap_append, List.map_map]
  rfl

/-- Notifications that were sent over a stream are read back in order, each as what it was meant to
say, and then what stands behind them. -/
theorem Notice.readAll_sendAll (notices : List Notice) :
    ∃ sink messages, Sink.sendAll {} (notices.map Notice.outgoing) = (sink, none) ∧
      List.Forall₂ Notice.Conveys notices messages ∧
      Message.readAll ⟨sink.output, none⟩ = (messages.map some, .ended) ∧
      ∀ more failure?, Message.readAll ⟨sink.output ++ more, failure?⟩ =
        (messages.map some ++ (Message.readAll ⟨more, failure?⟩).1,
          (Message.readAll ⟨more, failure?⟩).2) := by
  have hbodies : (notices.map body).map (Message.parse? ∘ Body.bytes) =
      (notices.map message).map some := by
    rw [List.map_map, List.map_map]
    exact List.map_congr_left fun n _ => n.parse?_body
  have hread : ∀ more failure?,
      Message.readAll ⟨(Frame.writeAll {} (notices.map body)).output ++ more, failure?⟩ =
        ((notices.map message).map some ++ (Message.readAll ⟨more, failure?⟩).1,
          (Message.readAll ⟨more, failure?⟩).2) := by
    intro more failure?
    rw [Message.readAll, Frame.readAll_output_writeAll, List.map_append, List.map_map, hbodies]
    rfl
  refine ⟨_, notices.map message, Sink.sendAll_outgoing rfl notices, ?_, ?_, hread⟩
  · rw [List.forall₂_map_right_iff, List.forall₂_same]
    exact fun n _ => n.conveys
  · have hend := hread [] none
    have hnothing : Message.readAll ⟨[], none⟩ = ([], .ended) := by
      rw [Message.readAll, Frame.readAll_nil]
      rfl
    rwa [hnothing, List.append_nil, List.append_nil] at hend

/-- A notification with a name and parameters full of escapes, and one without parameters. The
parameters are not sent in the same letters. -/
theorem Notice.readAll_sendAll_escapes :
    let params : Params :=
      ⟨utf8 "[\"<\\u0041\\n\", 1.0e2, \x7b\"&\": null, \"&\": true\x7d]",
        .array [.string (utf8 "<\\u0041\\n"), .number (utf8 "1.0e2"),
          .object [(utf8 "&", .null), (utf8 "&", .bool true)]],
        by rfl, by decide +kernel⟩
    let escaped : Notice :=
      ⟨utf8 "a<\"\n\u2028", some params, by decide +kernel, by decide +kernel⟩
    let bare : Notice := ⟨utf8 "b", none, by decide +kernel, by decide +kernel⟩
    params.value.write .compact 1 =
        utf8 "[\"\\u003c\\u0041\\n\",1.0e2,\x7b\"\\u0026\":null,\"\\u0026\":true\x7d]" ∧
      ∃ sink messages, Sink.sendAll {} ([escaped, bare].map Notice.outgoing) = (sink, none) ∧
        List.Forall₂ Notice.Conveys [escaped, bare] messages ∧
        Message.readAll ⟨sink.output, none⟩ = (messages.map some, .ended) := by
  intro params escaped bare
  obtain ⟨sink, messages, hsent, hconveys, hread, -⟩ := Notice.readAll_sendAll [escaped, bare]
  exact ⟨by decide +kernel, sink, messages, hsent, hconveys, hread⟩

/-! ## Parameters that nest too deep -/

/-- A message with parameters that nest as deep as a text may is not read. -/
theorem Message.parse?_notification_eq_none (method : Bytes) {params : Json}
    (hparams : params.WellFormed) (hheight : Json.maxDepth ≤ params.height) :
    parse? (Json.record (notification method (some params))).render = none := by
  have hwritten : (Json.record (notification method (some params))).WellFormed := by
    apply wellFormed_notification
    rintro _ ⟨⟩
    exact hparams
  have hdeep : Json.maxDepth < (Json.record (notification method (some params))).height := by
    rw [height_notification]
    exact Nat.lt_succ_of_le hheight
  have hvalue := hwritten.parse?_write_eq_none hdeep 0
  have hsources :
      Json.sources? (Json.record (notification method (some params))).render = none := by
    rw [Option.eq_none_iff_forall_ne_some]
    intro sources hread
    obtain ⟨j, hj⟩ := Json.exists_parse?_of_sources? hread
    cases hvalue.symm.trans hj
  rw [parse?, hsources]
  simp only [Json.render, hvalue]

/-- Such a message is sent all the same. -/
theorem Message.readAll_of_maxDepth_le (method : Bytes) {params : Json}
    (hparams : params.WellFormed) (hheight : Json.maxDepth ≤ params.height)
    (hlength : (Json.record (notification method (some params))).render.length < 2 ^ 63) :
    ∃ sink, Sink.send {} (.notification method (some (.json params))) = (sink, none) ∧
      readAll ⟨sink.output, none⟩ = ([none], .ended) := by
  let body : Body := ⟨_, render_record_ne_nil _, hlength⟩
  refine ⟨Frame.writeAll {} [body], ?_, ?_⟩
  · exact Sink.send_eq_of_unlimited rfl (toJson_notification method (some params))
  · have hframes := Frame.readAll_output_writeAll [body] [] none
    have hbody := parse?_notification_eq_none method hparams hheight
    rw [List.append_nil, Frame.readAll_nil] at hframes
    rw [readAll, hframes, List.append_nil, List.map_singleton, List.map_singleton, hbody]

/-- Arrays inside of each other: one, and as many around it as the number says. -/
def nested : Nat → Json
  | 0 => .array []
  | n + 1 => .array [nested n]

theorem wellFormed_nested (n : Nat) : (nested n).WellFormed := by
  induction n with
  | zero => exact .array (by simp)
  | succ n ih => exact .array (by simpa using ih)

theorem height_nested (n : Nat) : (nested n).height = n + 1 := by
  induction n with
  | zero => rfl
  | succ n ih => simp [nested, Json.height, Json.itemsHeight, ih]

theorem guarded_nested (n : Nat) : (nested n).guarded = nested n := by
  unfold Json.guarded
  induction n with
  | zero => rfl
  | succ n ih => simp [nested, Json.mapStrings, Json.mapItems, ih]

theorem write_nested (n level : Nat) :
    (nested n).write .compact level =
      List.replicate (n + 1) 0x5B ++ List.replicate (n + 1) 0x5D := by
  induction n generalizing level with
  | zero => rfl
  | succ n ih =>
      rw [nested, Json.write_array, List.map_singleton, ih, List.replicate_succ (n := n + 1),
        List.replicate_succ' (n := n + 1)]
      simp [Bytes.join]

theorem render_notification_nested (n : Nat) :
    (Json.record (notification (utf8 "m") (some (nested n)))).render =
      utf8 "\x7b\"jsonrpc\":\"2.0\",\"method\":\"m\",\"params\":" ++
        (List.replicate (n + 1) 0x5B ++ List.replicate (n + 1) 0x5D ++ [0x7D]) := by
  have hversion : Json.writeMember 1 (utf8 "jsonrpc", .text (utf8 "2.0")) =
      utf8 "\"jsonrpc\":\"2.0\"" := by
    decide +kernel
  have hmethod : Json.writeMember 1 (utf8 "method", .text (utf8 "m")) =
      utf8 "\"method\":\"m\"" := by
    decide +kernel
  have hname : Json.quote (utf8 "params") = utf8 "\"params\"" := by decide +kernel
  have hparams : Json.writeMember 1 (utf8 "params", nested n) =
      utf8 "\"params\":" ++ (List.replicate (n + 1) 0x5B ++ List.replicate (n + 1) 0x5D) := by
    rw [Json.writeMember, hname, write_nested]
    rfl
  have hfront : utf8 "\x7b\"jsonrpc\":\"2.0\",\"method\":\"m\",\"params\":" =
      0x7B :: (utf8 "\"jsonrpc\":\"2.0\"" ++ 0x2C :: (utf8 "\"method\":\"m\"" ++
        0x2C :: utf8 "\"params\":")) := by
    decide +kernel
  rw [Json.record, Json.render, Json.write_object, hfront]
  simp [notification, Outgoing.version, hversion, hmethod, hparams, Bytes.join]

/-- The deepest parameters that can be given by a text are sent, but the message is not read. -/
theorem Message.readAll_nested_params :
    Json.parse? (List.replicate 10000 0x5B ++ List.replicate 10000 0x5D) = some (nested 9999) ∧
      ∃ sink, Sink.send {} (.notification (utf8 "m") (some (.json (nested 9999)))) = (sink, none) ∧
        Message.readAll ⟨sink.output, none⟩ = ([none], .ended) := by
  have hread := (wellFormed_nested 9999).parse?_write (Nat.le_of_eq (height_nested 9999)) 0
  rw [write_nested, guarded_nested] at hread
  have hfront : (utf8 "\x7b\"jsonrpc\":\"2.0\",\"method\":\"m\",\"params\":").length = 39 := by
    decide +kernel
  refine ⟨hread, readAll_of_maxDepth_le _ (wellFormed_nested 9999) ?_ ?_⟩
  · exact Nat.le_of_eq (height_nested 9999).symm
  · rw [render_notification_nested, List.length_append, hfront, List.length_append,
      List.length_append, List.length_replicate, List.length_replicate]
    decide

end Rpc

end DefinitionFiles
