import Mathlib
import Netcode.Proofs.Text.Tokens
import Netcode.OutOfBand

set_option autoImplicit false

namespace Netcode

namespace OutOfBand

open Text

section Framing

theorem split_encode (direction : UInt8) (text : String) (free : Char.ofNat 0 ∉ text.toList) :
    split (encode direction text) = .ok (direction, text) := by
  have noZero : ∀ b ∈ text.toUTF8.toList, decide (b ≠ 0) = true := fun b mem => by
    have : b ≠ 0 := fun zero => free ((Utf8.zero_mem_toUTF8_iff text).mp (zero ▸ mem))
    simpa using this
  have marked : isOutOfBand (encode direction text) = true := by
    simp [isOutOfBand, encode, marker]
  have body : (encode direction text).drop 4 = direction :: text.toUTF8.toList := rfl
  rw [split, if_neg (by simp [marked]), body]
  simp only [List.takeWhile_eq_self_iff.mpr noZero, Utf8.decodeLossy_toUTF8]

theorem readPacket_of_split_error {α : Type} (expected : UInt8) (read : String → Except NetError α)
    {packet : List UInt8} {e : NetError} (fails : split packet = .error e) :
    readPacket expected read packet = .error e := by
  rw [readPacket, fails]
  rfl

theorem readPacket_of_split_ok {α : Type} (expected : UInt8) (read : String → Except NetError α)
    {packet : List UInt8} {direction : UInt8} {text : String} (splits : split packet = .ok (direction, text)) :
    readPacket expected read packet = (checkDirection direction expected >>= fun _ => read text) := by
  rw [readPacket, splits]
  rfl

theorem readPacket_encode {α : Type} (expected : UInt8) (read : String → Except NetError α) (text : String)
    (free : Char.ofNat 0 ∉ text.toList) : readPacket expected read (encode expected text) = read text := by
  rw [readPacket_of_split_ok expected read (split_encode _ _ free), checkDirection, if_pos rfl]
  rfl

/-- A bad header is reported exactly for a packet without the marker or with another direction
byte, a packet too short to hold one included, when the text reader never reports one. -/
theorem readPacket_badHeader_iff {α : Type} (expected : UInt8) (read : String → Except NetError α)
    (textOnly : ∀ text m, read text ≠ .error (.badHeader m)) (packet : List UInt8) :
    (∃ m, readPacket expected read packet = .error (.badHeader m)) ↔
      packet.take 4 ≠ marker ∨ packet[4]? ≠ some expected := by
  have at4 : packet[4]? = (packet.drop 4)[0]? := by rw [List.getElem?_drop]
  by_cases marked : packet.take 4 = marker
  · have start : isOutOfBand packet = true := by simp [isOutOfBand, marked]
    rcases body : packet.drop 4 with _ | ⟨direction, text⟩
    · -- four bytes: the marker and no direction byte
      have fails : split packet = .error (.badHeader "missing direction byte") := by
        rw [split, if_neg (by simp [start]), body]
      rw [body] at at4
      simp [readPacket_of_split_error expected read fails, at4]
    · have splits : split packet = .ok (direction, Utf8.decodeLossy (text.takeWhile (· ≠ 0))) := by
        rw [split, if_neg (by simp [start]), body]
      rw [body, List.getElem?_cons_zero] at at4
      rw [readPacket_of_split_ok expected read splits, at4, checkDirection]
      by_cases same : direction = expected
      · -- the header is right, and the text reader reports no bad header
        rw [if_pos same]
        exact iff_of_false (fun ⟨m, reads⟩ => textOnly _ m reads) (by simp [marked, same])
      · rw [if_neg same]
        have differs : some direction ≠ some expected := fun h => same (Option.some.inj h)
        exact iff_of_true ⟨_, rfl⟩ (Or.inr differs)
  · have fails : split packet = .error (.badHeader "missing connectionless marker") := by
      rw [split, if_pos (by simp [isOutOfBand, marked])]
    exact iff_of_true ⟨_, readPacket_of_split_error expected read fails⟩ (Or.inl marked)

end Framing

section Words

theorem tokenize_single (word : String) (nonempty : word.toList ≠ []) (plain : ∀ c ∈ word.toList, Plain c) :
    tokenize word = [word] := by
  have empty : tokenize "" = [] := by simp [tokenize_eq]
  simpa [empty] using tokenize_word word "" nonempty plain (by simp)

theorem Plain.ne_of_separator {c d : Char} (plain : Plain c) (separator : isSeparator d = true) : c ≠ d := by
  rintro rfl
  rw [plain.1] at separator
  exact Bool.false_ne_true separator

theorem not_mem_append {d : Char} {a b : String} (left : d ∉ a.toList) (right : d ∉ b.toList) :
    d ∉ (a ++ b).toList := by
  rw [String.toList_append, List.mem_append]
  exact fun mem => mem.elim left right

theorem not_mem_toString {d : Char} (separator : isSeparator d = true) (i : Int) : d ∉ (toString i).toList :=
  fun mem => Plain.ne_of_separator (plain_of_toString i _ mem) separator rfl

theorem not_mem_join {d : Char} (ls : List String) (free : ∀ l ∈ ls, d ∉ l.toList) :
    d ∉ (String.join ls).toList := by
  rw [String.toList_join, List.mem_flatMap]
  rintro ⟨l, inLines, mem⟩
  exact free l inLines mem

theorem nul_not_mem_render {info : InfoString} (built : info.Built) : Char.ofNat 0 ∉ info.render.toList :=
  fun mem => (built.mem_render _ mem).elim (fun slash => absurd slash (by decide)) fun allowed => allowed.2.2 rfl

theorem quote_not_mem_render {info : InfoString} (built : info.Built) : '"' ∉ info.render.toList :=
  fun mem => (built.mem_render _ mem).elim (fun slash => absurd slash (by decide)) fun allowed => allowed.2.1 rfl

theorem toList_toString_ne_nil (i : Int) : (toString i).toList ≠ [] := by
  cases i with
  | ofNat n =>
    rw [show toString (Int.ofNat n) = n.repr from rfl, Nat.toList_repr]
    exact Nat.toDigits_ne_nil
  | negSucc n =>
    rw [toList_toString_negSucc]
    exact List.cons_ne_nil _ _

theorem afterFirstLine_append (head rest : String) (noBreak : '\n' ∉ head.toList) :
    afterFirstLine (head ++ ("\n" ++ rest)) = rest := by
  have line : (head ++ ("\n" ++ rest)).toList.dropWhile (· ≠ '\n') = '\n' :: rest.toList := by
    rw [String.toList_append, List.dropWhile_append_of_pos (fun c mem => by
      have : c ≠ '\n' := fun same => noBreak (same ▸ mem)
      simpa using this)]
    simp
  rw [afterFirstLine, line]
  exact String.ofList_toList

end Words

namespace Request

/-- Requests whose userinfo is built by set calls with NUL-free keys and values. -/
def Formed : Request → Prop
  | .connect userinfo => userinfo.Built
  | _ => True

theorem ofText_ne_badHeader (text m : String) : ofText text ≠ .error (.badHeader m) := by
  unfold ofText
  split <;> simp [pure, Except.pure]

theorem text_connect (userinfo : InfoString) :
    (connect userinfo).text = "connect" ++ (" " ++ ("\"" ++ (userinfo.render ++ ("\"" ++ "")))) := by
  show "connect \"" ++ userinfo.render ++ "\"" = _
  rw [String.append_empty, ← String.append_assoc, ← String.append_assoc]
  rfl

theorem free_text (r : Request) (formed : r.Formed) : Char.ofNat 0 ∉ r.text.toList := by
  cases r with
  | connect userinfo =>
    rw [text_connect]
    exact not_mem_append (by decide) (not_mem_append (by decide)
      (not_mem_append (by decide) (not_mem_append (nul_not_mem_render formed) (by decide))))
  | getChallenge | getInfo | getStatus => decide

theorem ofText_text (r : Request) (formed : r.Formed) : ofText r.text = .ok r := by
  cases r with
  | connect userinfo =>
    have quoted := tokenize_quoted userinfo.render "" (quote_not_mem_render formed)
    rw [text_connect, ofText, tokenize_word _ _ (by simp) (by simp [Plain, isSeparator, isWhitespace, isControl])
      (by simp [isSeparator, isWhitespace]), tokenize_separators " " _ (by simp [isSeparator, isWhitespace]),
      quoted]
    simp only [List.headD_cons, formed.parse_render]
    rfl
  | getChallenge => decide +kernel
  | getInfo => decide +kernel
  | getStatus => decide +kernel

theorem ofBytes_toBytes (r : Request) (formed : r.Formed) : ofBytes r.toBytes = .ok r := by
  rw [ofBytes, toBytes, readPacket_encode _ _ _ (free_text r formed), ofText_text r formed]

theorem badHeader_iff (packet : List UInt8) :
    (∃ m, ofBytes packet = .error (.badHeader m)) ↔ packet.take 4 ≠ marker ∨ packet[4]? ≠ some fromClient :=
  readPacket_badHeader_iff fromClient ofText ofText_ne_badHeader packet

end Request

namespace StatusPlayer

def entry (p : StatusPlayer) : String :=
  toString p.score ++ (" " ++ (toString p.ping ++ (" " ++ ("\"" ++ (p.name ++ "\"")))))

theorem line_eq (p : StatusPlayer) : p.line = p.entry ++ "\n" := by
  show toString p.score ++ " " ++ toString p.ping ++ " \"" ++ p.name ++ "\"\n" = _
  rw [show (" \"" : String) = " " ++ "\"" from rfl, show ("\"\n" : String) = "\"" ++ "\n" from rfl, entry]
  simp only [String.append_assoc]

theorem ofLine_entry (p : StatusPlayer) (noQuote : '"' ∉ p.name.toList) : ofLine p.entry = some p := by
  have quoted := tokenize_quoted p.name "" noQuote
  rw [String.append_empty, show tokenize "" = [] by simp [tokenize_eq]] at quoted
  have space : ∀ rest : String, ∀ c ∈ (" " ++ rest).toList.head?, isSeparator c = true := by
    simp [isSeparator, isWhitespace]
  have tokens : tokenize p.entry = [toString p.score, toString p.ping, p.name] := by
    rw [entry,
      tokenize_word (toString p.score) _ (toList_toString_ne_nil p.score.toInt) (plain_of_toString p.score.toInt) (space _),
      tokenize_separators " " _ (by simp [isSeparator, isWhitespace]),
      tokenize_word (toString p.ping) _ (toList_toString_ne_nil p.ping.toInt) (plain_of_toString p.ping.toInt) (space _),
      tokenize_separators " " _ (by simp [isSeparator, isWhitespace]), quoted]
  rw [ofLine, tokens]
  simp only [parseInt32_toString]
  rfl

theorem not_mem_entry (p : StatusPlayer) {d : Char} (separator : isSeparator d = true) (notSpace : d ≠ ' ')
    (name : d ∉ p.name.toList) : d ∉ p.entry.toList := by
  have space : d ∉ (" " : String).toList := by simpa using notSpace
  have quote : d ∉ ("\"" : String).toList := by
    simp only [show ("\"" : String).toList = ['"'] by simp, List.mem_singleton]
    rintro rfl
    exact absurd separator (by decide)
  rw [entry]
  exact not_mem_append (not_mem_toString separator p.score.toInt) (not_mem_append space
    (not_mem_append (not_mem_toString separator p.ping.toInt) (not_mem_append space
      (not_mem_append quote (not_mem_append name quote)))))

theorem getLast_entry (p : StatusPlayer) : p.entry.toList.getLast? = some '"' := by
  simp [entry, List.getLast?_cons, List.getLast?_append]

end StatusPlayer

namespace Response

/-- Responses whose texts hold no NUL, whose info strings are built by set calls with NUL-free
keys and values, and whose players' names hold no double quote and no newline. -/
def Formed : Response → Prop
  | .print message | .dropError message => Char.ofNat 0 ∉ message.toList
  | .info pairs => pairs.Built
  | .status pairs players => pairs.Built ∧
      ∀ p ∈ players, Char.ofNat 0 ∉ p.name.toList ∧ '"' ∉ p.name.toList ∧ '\n' ∉ p.name.toList
  | _ => True

/-- Responses the reader's trimming leaves alone: a drop message without leading whitespace, and
info texts without trailing whitespace or, in a status, a newline. -/
def Untrimmed : Response → Prop
  | .dropError message => ∀ c ∈ message.toList.head?, isWhitespace c = false
  | .info pairs => ∀ c ∈ pairs.render.toList.getLast?, isWhitespace c = false
  | .status pairs _ => '\n' ∉ pairs.render.toList ∧ pairs.render.toList.getLast? ≠ some '\r'
  | _ => True

theorem ofText_ne_badHeader (text m : String) : ofText text ≠ .error (.badHeader m) := by
  unfold ofText
  split
  · simp
  · split <;> simp [pure, Except.pure]
  all_goals simp [pure, Except.pure]

theorem text_challenge (c : UInt32) : (challenge c).text = "challengeResponse" ++ (" " ++ toString c) := by
  show "challengeResponse " ++ toString c = _
  rw [← String.append_assoc]
  rfl

theorem text_print (message : String) : (print message).text = "print" ++ ("\n" ++ message) := by
  show "print\n" ++ message = _
  rw [← String.append_assoc]
  rfl

theorem text_dropError (message : String) :
    (dropError message).text = "droperror" ++ (" " ++ message) := by
  show "droperror " ++ message = _
  rw [← String.append_assoc]
  rfl

theorem text_info (info : InfoString) : (Response.info info).text = "infoResponse" ++ ("\n" ++ info.render) := by
  show "infoResponse\n" ++ info.render = _
  rw [← String.append_assoc]
  rfl

theorem text_status (info : InfoString) (players : List StatusPlayer) :
    (status info players).text =
      "statusResponse" ++ ("\n" ++ String.join ((info.render :: players.map StatusPlayer.entry).map (· ++ "\n"))) := by
  show "statusResponse\n" ++ info.render ++ "\n" ++ String.join (players.map StatusPlayer.line) = _
  rw [List.map_cons, String.join_cons, List.map_map, List.map_congr_left (fun p _ => StatusPlayer.line_eq p)]
  simp only [String.append_assoc]
  rfl

theorem free_text (r : Response) (formed : r.Formed) : Char.ofNat 0 ∉ r.text.toList := by
  cases r with
  | challenge c =>
    rw [text_challenge]
    exact not_mem_append (by decide) (not_mem_append (by decide) (not_mem_toString (by decide) (c.toNat : Int)))
  | print message =>
    rw [text_print]
    exact not_mem_append (by decide) (not_mem_append (by decide) formed)
  | dropError message =>
    rw [text_dropError]
    exact not_mem_append (by decide) (not_mem_append (by decide) formed)
  | info pairs =>
    rw [text_info]
    exact not_mem_append (by decide) (not_mem_append (by decide) (nul_not_mem_render formed))
  | status pairs players =>
    have lines : ∀ l ∈ (pairs.render :: players.map StatusPlayer.entry), Char.ofNat 0 ∉ l.toList := by
      intro l mem
      rcases List.mem_cons.mp mem with rfl | entry
      · exact nul_not_mem_render formed.1
      · obtain ⟨p, inPlayers, rfl⟩ := List.mem_map.mp entry
        exact p.not_mem_entry (by decide) (by decide) (formed.2 p inPlayers).1
    rw [text_status]
    refine not_mem_append (by decide) (not_mem_append (by decide) (not_mem_join _ ?_))
    intro l mem
    obtain ⟨line, inLines, rfl⟩ := List.mem_map.mp mem
    exact not_mem_append (lines line inLines) (by decide)
  | connect | disconnect => decide

section Reading

variable (message : String)

theorem ofText_challenge (c : UInt32) : ofText (challenge c).text = .ok (challenge c) := by
  have low : (Int64.ofNat c.toNat).toUInt64.toUInt32 = c := UInt32.toNat.inj (by simp)
  rw [text_challenge, ofText, tokenize_word _ _ (by simp) (by simp [Plain, isSeparator, isWhitespace, isControl])
      (by simp [isSeparator, isWhitespace]),
    tokenize_separators " " _ (by simp [isSeparator, isWhitespace]),
    tokenize_single (toString c) (toList_toString_ne_nil (c.toNat : Int)) (plain_of_toString (c.toNat : Int))]
  simp only [List.head?_cons, Option.bind_some, parseInt64_toString, low]
  rfl

theorem ofText_print : ofText (print message).text = .ok (print message) := by
  rw [text_print, ofText, tokenize_word _ _ (by simp) (by simp [Plain, isSeparator, isWhitespace, isControl])
    (by simp [isSeparator, isWhitespace])]
  simp only [afterFirstLine_append "print" message (by decide)]
  rfl

theorem ofText_dropError (untrimmed : ∀ c ∈ message.toList.head?, isWhitespace c = false) :
    ofText (dropError message).text = .ok (dropError message) := by
  have chars : "droperror" ++ (" " ++ message) = String.ofList ("droperror".toList ++ ' ' :: message.toList) := by
    simp [← String.toList_inj]
  -- the reader drops the whitespace after the command, and the message starts with none
  have kept : message.toList.dropWhile isWhitespace = message.toList := by
    cases start : message.toList with
    | nil => rfl
    | cons c rest =>
      rw [List.dropWhile_cons, if_neg (by simp [untrimmed c (by simp [start])])]
  rw [text_dropError, ofText, tokenize_word _ _ (by simp) (by simp [Plain, isSeparator, isWhitespace, isControl])
    (by simp [isSeparator, isWhitespace])]
  simp only
  rw [chars, argsFrom_one _ (by simp) (by simp [Plain, isSeparator, isWhitespace, isControl]) (by decide), kept,
    String.ofList_toList]
  rfl

theorem ofText_info (pairs : InfoString) (built : pairs.Built)
    (untrimmed : ∀ c ∈ pairs.render.toList.getLast?, isWhitespace c = false) :
    ofText (info pairs).text = .ok (info pairs) := by
  rw [text_info, ofText, tokenize_word _ _ (by simp) (by simp [Plain, isSeparator, isWhitespace, isControl])
    (by simp [isSeparator, isWhitespace])]
  simp only [afterFirstLine_append "infoResponse" _ (by decide), trimEnd_of_getLast _ untrimmed, built.parse_render]
  rfl

theorem ofText_status (pairs : InfoString) (players : List StatusPlayer) (formed : (status pairs players).Formed)
    (untrimmed : (status pairs players).Untrimmed) :
    ofText (status pairs players).text = .ok (status pairs players) := by
  obtain ⟨built, named⟩ := formed
  -- the info line and each player's line, one to a line
  have layout : lines (String.join ((pairs.render :: players.map StatusPlayer.entry).map (· ++ "\n"))) =
      pairs.render :: players.map StatusPlayer.entry := by
    refine lines_join _ (fun l mem => ?_) (fun l mem => ?_)
    · rcases List.mem_cons.mp mem with rfl | entry
      · exact untrimmed.1
      · obtain ⟨p, inPlayers, rfl⟩ := List.mem_map.mp entry
        exact p.not_mem_entry (by decide) (by decide) (named p inPlayers).2.2
    · rcases List.mem_cons.mp mem with rfl | entry
      · exact untrimmed.2
      · obtain ⟨p, -, rfl⟩ := List.mem_map.mp entry
        rw [p.getLast_entry]
        decide
  have players_back : (players.map StatusPlayer.entry).filterMap StatusPlayer.ofLine = players := by
    rw [List.filterMap_map]
    exact (List.filterMap_congr fun p inPlayers => p.ofLine_entry (named p inPlayers).2.1).trans List.filterMap_some
  rw [text_status, ofText, tokenize_word _ _ (by simp) (by simp [Plain, isSeparator, isWhitespace, isControl])
    (by simp [isSeparator, isWhitespace])]
  simp only [afterFirstLine_append "statusResponse" _ (by decide), statusOf, layout, built.parse_render,
    players_back]
  rfl

end Reading

theorem ofText_text (r : Response) (formed : r.Formed) (untrimmed : r.Untrimmed) : ofText r.text = .ok r := by
  cases r with
  | challenge c => exact ofText_challenge c
  | print message => exact ofText_print message
  | dropError message => exact ofText_dropError message untrimmed
  | info pairs => exact ofText_info pairs formed untrimmed
  | status pairs players => exact ofText_status pairs players formed untrimmed
  | connect => decide +kernel
  | disconnect => decide +kernel

theorem ofBytes_toBytes (r : Response) (formed : r.Formed) (untrimmed : r.Untrimmed) : ofBytes r.toBytes = .ok r := by
  rw [ofBytes, toBytes, readPacket_encode _ _ _ (free_text r formed), ofText_text r formed untrimmed]

theorem badHeader_iff (packet : List UInt8) :
    (∃ m, ofBytes packet = .error (.badHeader m)) ↔ packet.take 4 ≠ marker ∨ packet[4]? ≠ some fromServer :=
  readPacket_badHeader_iff fromServer ofText ofText_ne_badHeader packet

/-- The reader's trimming takes text from NUL-free packets: a drop message's leading space, an info
answer's trailing space, and a status info's lines after the first. -/
theorem ofBytes_trimsText :
    (dropError " x").Formed ∧ ofBytes (dropError " x").toBytes = .ok (dropError "x") ∧
    (info (({} : InfoString).set "name" "x ")).Formed ∧
      ofBytes (info (({} : InfoString).set "name" "x ")).toBytes = .ok (info (({} : InfoString).set "name" "x")) ∧
    (status (({} : InfoString).set "motd" "a\nb") []).Formed ∧
      ofBytes (status (({} : InfoString).set "motd" "a\nb") []).toBytes =
        .ok (status (({} : InfoString).set "motd" "a") []) := by
  refine ⟨show Char.ofNat 0 ∉ (" x" : String).toList by decide, by decide +kernel,
    .set _ _ (by decide) (by decide) .empty, by decide +kernel,
    ⟨.set _ _ (by decide) (by decide) .empty, by decide⟩, by decide +kernel⟩

end Response

/-- Connectionless requests and responses read back what was written when their strings are NUL-free
and built by set calls; a bad header is reported exactly for a missing marker or direction byte. -/
theorem packets_roundTrip :
    (∀ r : Request, r.Formed → Request.ofBytes r.toBytes = .ok r) ∧
    (∀ r : Response, r.Formed → r.Untrimmed → Response.ofBytes r.toBytes = .ok r) ∧
    (∀ packet : List UInt8, (∃ m, Request.ofBytes packet = .error (.badHeader m)) ↔
      packet.take 4 ≠ marker ∨ packet[4]? ≠ some fromClient) ∧
    (∀ packet : List UInt8, (∃ m, Response.ofBytes packet = .error (.badHeader m)) ↔
      packet.take 4 ≠ marker ∨ packet[4]? ≠ some fromServer) := by
  refine ⟨?_, ?_, ?_, ?_⟩
  · exact Request.ofBytes_toBytes
  · exact Response.ofBytes_toBytes
  · exact Request.badHeader_iff
  · exact Response.badHeader_iff

/-- A status answer with a player, and a connect request, read back; a server's packet sent to the
server's reader of requests, and a bare marker, are refused with a bad header. -/
theorem packets_roundTrip_status :
    let pairs := ({} : InfoString).set "sv_hostname" "arena"
    let answer := Response.status pairs [⟨3, 42, "player"⟩]
    let request := Request.connect (({} : InfoString).set "name" "player")
    answer.Formed ∧ answer.Untrimmed ∧ Response.ofBytes answer.toBytes = .ok answer ∧
    request.Formed ∧ Request.ofBytes request.toBytes = .ok request ∧
    (∃ m, Request.ofBytes answer.toBytes = .error (.badHeader m)) ∧
    (∃ m, Response.ofBytes marker = .error (.badHeader m)) := by
  intro pairs answer request
  have formed : answer.Formed := ⟨.set _ _ (by decide) (by decide) .empty, by decide⟩
  have untrimmed : answer.Untrimmed := by
    show _ ∧ _
    exact ⟨by decide +kernel, by decide +kernel⟩
  have asked : request.Formed := .set _ _ (by decide) (by decide) .empty
  exact ⟨formed, untrimmed, packets_roundTrip.2.1 answer formed untrimmed, asked,
    packets_roundTrip.1 request asked, (packets_roundTrip.2.2.1 _).mpr (Or.inr (by decide)),
    (packets_roundTrip.2.2.2 _).mpr (Or.inr (by decide))⟩

end OutOfBand

end Netcode
