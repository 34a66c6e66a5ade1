import ChronoShift.Net.SecureFrames
import ChronoShift.Text
import ChronoShift.ToMathlib.Lines

/-!
# The web console

A request to the console is authorised by a token in a header line (`web.rs`). The token is read
from a file and trimmed. A header line is folded to lower case as a whole before it is parsed, the
token in it included, and the two are compared as they are.

The stream is the bytes that arrive before it ends, and the time limits, at which a connection is
dropped, are not modelled. What `route` does after its check is not either.

* `readHeaders_eq_some`: the header lines that have been read;
* `tokenAuthorized_iff`: the values that are authorised;
* `token_check_exact`: the requests that are authorised as they should be.
-/

namespace ChronoShift

open ToMathlib

/-- What `read_limited_line` returns: a line with its terminator and the rest of the stream, or
`Ok(false)`, or `Err`. -/
inductive LimitedLine where
  | line (text : String) (rest : Bytes)
  | eof
  | tooLong

/-- `read_until` a newline, which is included. -/
def readUntilNewline : Bytes → Bytes
  | [] => []
  | b :: rest => if b = 10 then [b] else b :: readUntilNewline rest

def readLimitedLine (max : ℕ) (stream : Bytes) : LimitedLine :=
  let buf := readUntilNewline (stream.take (max + 1))
  if buf.length = 0 then .eof
  else if max < buf.length then .tooLong
  else .line (fromUtf8Lossy buf) (stream.drop buf.length)

/-- No more is read than there is. -/
theorem length_readUntilNewline_le (stream : Bytes) :
    (readUntilNewline stream).length ≤ stream.length := by
  induction stream with
  | nil => exact le_rfl
  | cons b rest ih =>
    rw [readUntilNewline]
    split
    · exact Nat.succ_le_succ (Nat.zero_le _)
    · exact Nat.succ_le_succ ih

/-- A line takes at least one byte. -/
theorem length_lt_of_readLimitedLine {max : ℕ} {stream rest : Bytes} {text : String}
    (h : readLimitedLine max stream = .line text rest) : rest.length < stream.length := by
  have hle := length_readUntilNewline_le (stream.take (max + 1))
  rw [List.length_take] at hle
  rw [readLimitedLine] at h
  split at h
  · cases h
  next hne =>
    split at h
    · cases h
    · cases h
      rw [List.length_drop]
      omega

/-- The headers that `handle_http` keeps. -/
structure Headers where
  contentLength : ℕ := 0
  authorization : Option String := none
  host : Option String := none
  origin : Option String := none
  contentType : Option String := none
  deriving DecidableEq

/-- One header line. All of it is folded to lower case, the value included. -/
def Headers.add (h : Headers) (trimmed : String) : Headers :=
  let lower := toAsciiLowercase trimmed
  match stripPrefix lower "content-length:" with
  | some v => { h with contentLength := min ((parseUnsigned (2 ^ 64) (trim v)).getD 0) 65536 }
  | none =>
    match stripPrefix lower "authorization:" with
    | some v => { h with authorization := some (trim v) }
    | none =>
      match stripPrefix lower "host:" with
      | some v => { h with host := some (trim v) }
      | none =>
        match stripPrefix lower "origin:" with
        | some v => { h with origin := some (trim v) }
        | none =>
          match stripPrefix lower "content-type:" with
          | some v => { h with contentType := some (trim v) }
          | none => h

/-- The loop over the header lines, up to the first empty one. `none` stands for a connection that
is dropped. -/
def readHeaders (headerBytes : ℕ) (h : Headers) (stream : Bytes) : Option (Headers × Bytes) :=
  match _hline : readLimitedLine 2048 stream with
  | .line line rest =>
    let headerBytes := headerBytes + (asBytes line).length
    if 16384 < headerBytes then none
    else
      let trimmed := trimEnd line
      if trimmed = "" then some (h, rest)
      else readHeaders headerBytes (h.add trimmed) rest
  | .eof => none
  | .tooLong => none
termination_by stream.length
decreasing_by exact length_lt_of_readLimitedLine _hline

def hostAllowed (host : String) : Bool :=
  ["127.0.0.1", "127.0.0.1:10888", "localhost", "localhost:10888", "[::1]",
    "[::1]:10888"].contains host

def originAllowed (origin : String) : Bool :=
  ["http://127.0.0.1:10888", "http://localhost:10888", "http://[::1]:10888"].contains origin

def ctAllowsJson (ct : String) : Bool :=
  startsWith (toAsciiLowercase (trim ct)) "application/json"

/-- The arguments of `route` that come from the request. -/
structure RouteCall where
  method : String
  path : String
  body : String
  authorization : Option String
  deriving DecidableEq

/-- The arguments of `write_response`. -/
structure HttpResponse where
  status : String
  contentType : String
  extraHeaders : String
  body : String
  deriving DecidableEq

/-- What `handle_http` does with a request: it drops the connection, it answers itself, or it calls
`route`. -/
inductive HttpOutcome where
  | dropped
  | answered (response : HttpResponse)
  | routed (call : RouteCall)
  deriving DecidableEq

/-- The checks of the headers, and the body. -/
def checkHeaders (method path : String) (h : Headers) (stream : Bytes) : HttpOutcome :=
  if h.host.any fun host => !hostAllowed host then
    .answered ⟨"403 Forbidden", "text/plain", "", "403"⟩
  else if h.origin.any fun origin => !originAllowed origin then
    .answered ⟨"403 Forbidden", "text/plain", "", "403"⟩
  else if method = "POST" ∧ path = "/api/connect" ∧ ¬ h.contentType.any ctAllowsJson then
    .answered ⟨"415 Unsupported Media Type", "application/json", "Cache-Control: no-store\r\n",
      "\x7b\"error\":\"unsupported media type\"\x7d"⟩
  else if method = "POST" ∧ 0 < h.contentLength then
    if stream.length < h.contentLength then .dropped
    else .routed ⟨method, path, fromUtf8Lossy (stream.take h.contentLength), h.authorization⟩
  else .routed ⟨method, path, "", h.authorization⟩

def handleHttp (stream : Bytes) : HttpOutcome :=
  match readLimitedLine 8192 stream with
  | .line requestLine rest =>
    match splitWhitespace requestLine with
    | method :: path :: _ =>
      match readHeaders 0 {} rest with
      | some (h, rest) => checkHeaders method path h rest
      | none => .dropped
    | _ => .dropped
  | .eof => .dropped
  | .tooLong => .dropped

def bearerToken (authorization : Option String) : Option String :=
  match authorization with
  | none => none
  | some header =>
    let parts := splitn2 ' ' (trim header)
    if !eqIgnoreAsciiCase parts.1 "Bearer" then none
    else
      match parts.2 with
      | none => none
      | some token => if trim token = "" then none else some (trim token)

def tokenAuthorized (expected : String) (authorization : Option String) : Bool :=
  match bearerToken authorization with
  | some provided => constantTimeEq (asBytes expected) (asBytes provided)
  | none => false

/-- The check that `route` begins with: whether it answers "401 Unauthorized". -/
def RouteCall.unauthorized (call : RouteCall) (token : String) : Bool :=
  startsWith call.path "/api/" && !tokenAuthorized token call.authorization

/-- The token of `start_web_console`: the content of the token file if it can be read and is not
blank, else a new token. -/
def loadWebToken (file : Option String) (generated : String) : String :=
  match file with
  | some existing => if trim existing = "" then generated else trim existing
  | none => generated

/-! ## The lines of a request -/

/-- The lines of a stream, with their terminators. -/
def textLines (stream : Bytes) : List String :=
  (rawLines 10 stream).map fun l => fromUtf8Lossy (if l.2 then l.1 ++ [10] else l.1)

/-- The path in the first line of a request. -/
def requestPath (stream : Bytes) : Option String :=
  (splitWhitespace ((textLines stream).headD ""))[1]?

/-- The lines up to the first empty one, without the whitespace at their ends. -/
def nonBlankLines (lines : List String) : List String := (lines.map trimEnd).takeWhile (· ≠ "")

/-- The header lines of a request. -/
def headerLines (stream : Bytes) : List String := nonBlankLines (textLines stream).tail

variable {stream rest : Bytes} {max : ℕ} {text : String}

/-- A line that ends within the limit is the line that is read without a limit. -/
theorem readUntilNewline_take {n : ℕ} (h : (readUntilNewline (stream.take n)).length < n) :
    readUntilNewline (stream.take n) = readUntilNewline stream := by
  induction stream generalizing n with
  | nil => rw [List.take_nil]
  | cons b rest ih =>
    cases n with
    | zero => cases h
    | succ n =>
      rw [List.take_succ_cons, readUntilNewline] at h ⊢
      rw [readUntilNewline]
      split
      · rfl
      next hb =>
        rw [if_neg hb, List.length_cons] at h
        rw [ih (Nat.lt_of_succ_lt_succ h)]

/-- The text of a line that is read, and what follows it. -/
theorem readLimitedLine_eq_line (h : readLimitedLine max stream = .line text rest) :
    stream ≠ [] ∧ text = fromUtf8Lossy (readUntilNewline stream) ∧
      rest = stream.drop (readUntilNewline stream).length := by
  rw [readLimitedLine] at h
  split at h
  · cases h
  next hne =>
    split at h
    · cases h
    next hmax =>
      have hline := readUntilNewline_take (Nat.lt_succ_of_le (not_lt.mp hmax))
      rw [hline] at hne h
      cases h
      refine ⟨?_, rfl, rfl⟩
      rintro rfl
      exact hne rfl

/-- A line ends at its line feed. -/
theorem readUntilNewline_append {line : Bytes} (hline : 10 ∉ line) (rest : Bytes) :
    readUntilNewline (line ++ 10 :: rest) = line ++ [10] := by
  induction line with
  | nil => rfl
  | cons b line ih =>
    rw [List.mem_cons, not_or] at hline
    rw [List.cons_append, readUntilNewline, if_neg (Ne.symm hline.1), ih hline.2, List.cons_append]

/-- Without a line feed everything is read. -/
theorem readUntilNewline_of_notMem {line : Bytes} (hline : 10 ∉ line) :
    readUntilNewline line = line := by
  induction line with
  | nil => rfl
  | cons b line ih =>
    rw [List.mem_cons, not_or] at hline
    rw [readUntilNewline, if_neg (Ne.symm hline.1), ih hline.2]

/-- A line that is read is the first line of the stream. -/
theorem textLines_of_readLimitedLine (h : readLimitedLine max stream = .line text rest) :
    textLines stream = text :: textLines rest := by
  obtain ⟨hne, rfl, rfl⟩ := readLimitedLine_eq_line h
  by_cases hmem : 10 ∈ stream
  · obtain ⟨line, rest, rfl, hline⟩ := List.eq_append_cons_of_mem hmem
    rw [textLines, rawLines_append_cons hline, List.map_cons, readUntilNewline_append hline,
      List.append_cons line 10 rest, List.drop_left]
    rfl
  · rw [textLines, rawLines_of_notMem hmem hne, readUntilNewline_of_notMem hmem, List.drop_length]
    rfl

/-- The headers that are kept are those of the lines up to the first empty one. -/
theorem readHeaders_eq_some {headerBytes : ℕ} {h h' : Headers}
    (hread : readHeaders headerBytes h stream = some (h', rest)) :
    h' = (nonBlankLines (textLines stream)).foldl Headers.add h := by
  fun_induction readHeaders headerBytes h stream with
  | case1 => cases hread
  -- the blank line ends the headers, and is none of them
  | case2 headerBytes h stream line rest₁ hline _ _ trimmed hblank =>
    cases hread
    rw [textLines_of_readLimitedLine hline, nonBlankLines, List.map_cons,
      List.takeWhile_cons_of_neg (by simpa using hblank)]
    rfl
  | case3 headerBytes h stream line rest₁ hline _ _ trimmed hblank ih =>
    rw [textLines_of_readLimitedLine hline, nonBlankLines, List.map_cons,
      List.takeWhile_cons_of_pos (by simpa using hblank), List.foldl_cons]
    exact ih hread
  | case4 => cases hread
  | case5 => cases hread

/-- What the call that is routed has from the request. -/
theorem checkHeaders_eq_routed {method path : String} {h : Headers} {call : RouteCall}
    (hrouted : checkHeaders method path h stream = .routed call) :
    call.path = path ∧ call.authorization = h.authorization := by
  rw [checkHeaders] at hrouted
  split at hrouted
  · cases hrouted
  split at hrouted
  · cases hrouted
  split at hrouted
  · cases hrouted
  split at hrouted
  · split at hrouted
    · cases hrouted
    · cases hrouted
      exact ⟨rfl, rfl⟩
  · cases hrouted
    exact ⟨rfl, rfl⟩

/-- A request that reaches `route` is for the path of its first line, and has the headers of its
header lines. -/
theorem handleHttp_eq_routed {call : RouteCall} (hrouted : handleHttp stream = .routed call) :
    requestPath stream = some call.path ∧
      call.authorization = ((headerLines stream).foldl Headers.add {}).authorization := by
  rw [handleHttp] at hrouted
  split at hrouted
  next requestLine rest hline =>
    split at hrouted
    next method path _ hwords =>
      split at hrouted
      next h rest hheaders =>
        obtain ⟨hpath, hauthorization⟩ := checkHeaders_eq_routed hrouted
        rw [requestPath, headerLines, textLines_of_readLimitedLine hline, List.tail_cons,
          ← readHeaders_eq_some hheaders, List.headD_cons, hwords]
        exact ⟨congrArg some hpath.symm, hauthorization⟩
      · cases hrouted
    · cases hrouted
  · cases hrouted
  · cases hrouted

/-! ## The header that is authorised -/

/-- The line is taken for the header with the token. -/
def IsAuthorization (line : String) : Prop :=
  startsWith (toAsciiLowercase line) "authorization:" = true

/-- An authorization header replaces the one before. -/
theorem Headers.add_of_isAuthorization {h : Headers} {line v : String}
    (hv : (toAsciiLowercase line).toList = "authorization:".toList ++ v.toList) :
    (h.add line).authorization = some (trim v) := by
  -- a line has at most one of the prefixes
  have hlength : stripPrefix (toAsciiLowercase line) "content-length:" = none := by
    refine Option.eq_none_iff_forall_ne_some.mpr fun v' hv' => ?_
    rw [stripPrefix_eq_some_iff, hv] at hv'
    simp at hv'
  rw [Headers.add, hlength, stripPrefix_eq_some_iff.mpr hv]

/-- Other headers leave the authorization alone. -/
theorem Headers.add_of_not_isAuthorization {h : Headers} {line : String}
    (hline : ¬ IsAuthorization line) :
    (h.add line).authorization = h.authorization := by
  have hnone : stripPrefix (toAsciiLowercase line) "authorization:" = none := if_neg hline
  rw [Headers.add, hnone]
  dsimp only
  split
  · rfl
  · split
    · rfl
    · split
      · rfl
      · split <;> rfl

/-- Of several such lines the last one counts. -/
theorem authorization_foldl {before after : List String} {line v : String} {h : Headers}
    (hv : (toAsciiLowercase line).toList = "authorization:".toList ++ v.toList)
    (hafter : ∀ l ∈ after, ¬ IsAuthorization l) :
    ((before ++ line :: after).foldl Headers.add h).authorization = some (trim v) := by
  rw [List.foldl_append, List.foldl_cons, ← Headers.add_of_isAuthorization hv]
  generalize (List.foldl Headers.add h before).add line = h₁
  induction after generalizing h₁ with
  | nil => rfl
  | cons l after ih =>
    rw [List.forall_mem_cons] at hafter
    rw [List.foldl_cons, ih hafter.2, Headers.add_of_not_isAuthorization hafter.1]

/-! ## Bearer tokens -/

variable {t v : String}

/-- A request is authorized by the token itself. -/
theorem tokenAuthorized_iff {authorization : Option String} :
    tokenAuthorized t authorization = true ↔ bearerToken authorization = some t := by
  rw [tokenAuthorized]
  split
  next provided hprovided =>
    rw [constantTimeEq_iff, hprovided, Option.some_inj]
    exact ⟨fun h => (asBytes_injective h).symm, fun h => h ▸ rfl⟩
  next hnone =>
    rw [hnone]
    exact iff_of_false Bool.false_ne_true fun h => by cases h

/-- The value is the scheme, a space and the token, with whitespace around each. -/
def HasBearer (v token : String) : Prop :=
  ∃ scheme : String, ∃ front middle back : List Char, eqIgnoreAsciiCase scheme "Bearer" = true ∧
    (∀ c ∈ front, isWhitespace c = true) ∧ (∀ c ∈ middle, isWhitespace c = true) ∧
    (∀ c ∈ back, isWhitespace c = true) ∧
    v.toList = front ++ (scheme.toList ++ ' ' :: (middle ++ token.toList) ++ back)

/-- There is no whitespace in the name of the scheme. -/
theorem noWhitespace_scheme {scheme : String} (h : eqIgnoreAsciiCase scheme "Bearer" = true) :
    scheme.toList ≠ [] ∧ NoWhitespace scheme := by
  have hlower : scheme.toList.map Char.toLower = ['b', 'e', 'a', 'r', 'e', 'r'] := by
    rw [← toList_toAsciiLowercase, of_decide_eq_true h]
    decide
  constructor
  · intro hnil
    rw [hnil] at hlower
    cases hlower
  · intro c hc
    have hmem : c.toLower ∈ ['b', 'e', 'a', 'r', 'e', 'r'] := hlower ▸ List.mem_map_of_mem hc
    have hnone : NoWhitespace "bearer" := by decide
    rw [← isWhitespace_toLower, hnone _ hmem]

/-- The token after the scheme is found. -/
theorem bearerToken_of_hasBearer (hne : t ≠ "") (hws : NoWhitespace t) (h : HasBearer v t) :
    bearerToken (some (trim v)) = some t := by
  obtain ⟨scheme, front, middle, back, hscheme, hfront, hmiddle, hback, hv⟩ := h
  obtain ⟨hscheme_ne, hscheme_ws⟩ := noWhitespace_scheme hscheme
  have ht : t.toList ≠ [] := fun hnil => hne (String.toList_inj.mp hnil)
  have hhead : ∀ c ∈ t.toList.head?, isWhitespace c = false :=
    fun c hc => hws c (List.mem_of_mem_head? hc)
  have hlast : ∀ c ∈ t.toList.getLast?, isWhitespace c = false :=
    fun c hc => hws c (List.mem_of_mem_getLast? hc)
  obtain ⟨value, hvalue⟩ : ∃ value : String,
      value.toList = scheme.toList ++ ' ' :: (middle ++ t.toList) := ⟨_, String.toList_ofList⟩
  obtain ⟨token, htoken⟩ : ∃ token : String, token.toList = middle ++ t.toList :=
    ⟨_, String.toList_ofList⟩
  have htrim : trim v = value := by
    refine trim_of_append hfront hback ?_ ?_ ?_
    · intro c hc
      rw [hvalue, List.head?_append_of_ne_nil _ hscheme_ne] at hc
      exact hscheme_ws c (List.mem_of_mem_head? hc)
    · intro c hc
      rw [hvalue, ← List.cons_append, ← List.append_assoc,
        List.getLast?_append_of_ne_nil _ ht] at hc
      exact hlast c hc
    · rw [hv, hvalue, List.append_assoc]
  -- the first space is the one behind the scheme
  have hsplit : splitn2 ' ' value = (scheme, some token) := by
    refine splitn2_append (fun hmem => ?_) (htoken ▸ hvalue)
    exact absurd (hscheme_ws ' ' hmem) (by decide)
  have htoken_trim : trim token = t := by
    refine trim_of_append hmiddle (List.forall_mem_nil _) hhead hlast ?_
    rw [List.append_nil, htoken]
  rw [bearerToken, trim_trim, htrim, hsplit]
  simp [hscheme, htoken_trim, hne]

/-- A token that is found stands after the scheme. -/
theorem hasBearer_of_bearerToken (h : bearerToken (some (trim v)) = some t) : HasBearer v t := by
  rw [bearerToken, trim_trim] at h
  split at h
  · cases h
  next hscheme =>
    split at h
    · cases h
    next token htoken =>
      split at h
      · cases h
      · obtain rfl := Option.some.inj h
        obtain ⟨front, back, hfront, hback, hv⟩ := exists_eq_append_trim v
        obtain ⟨middle, back', hmiddle, hback', htoken_eq⟩ := exists_eq_append_trim token
        have hsplit := eq_append_of_splitn2 (Prod.ext rfl htoken)
        refine ⟨_, front, middle, back' ++ back, by simpa using hscheme, hfront, hmiddle, ?_, ?_⟩
        · exact List.forall_mem_append.mpr ⟨hback', hback⟩
        · rw [hv, hsplit, htoken_eq]
          simp only [List.append_assoc, List.cons_append]

/-! ## Who passes the check -/

/-- The request reaches `route`, and passes its check. -/
def PassesTokenCheck (token : String) (stream : Bytes) : Prop :=
  ∃ call, handleHttp stream = .routed call ∧ call.unauthorized token = false

/-- The header line holds the token as it is, after the fold to lower case. -/
def Carries (line token : String) : Prop :=
  ∃ v : String, (toAsciiLowercase line).toList = "authorization:".toList ++ v.toList ∧
    HasBearer v token

/-- A header carries a token if and only if it is read from it. -/
theorem carries_iff {line : String}
    (hv : (toAsciiLowercase line).toList = "authorization:".toList ++ v.toList) (hne : t ≠ "")
    (hws : NoWhitespace t) : Carries line t ↔ bearerToken (some (trim v)) = some t := by
  constructor
  · rintro ⟨v', hv', hvalue⟩
    obtain rfl : v = v' := String.toList_inj.mp (List.append_cancel_left (hv.symm.trans hv'))
    exact bearerToken_of_hasBearer hne hws hvalue
  · exact fun h => ⟨v, hv, hasBearer_of_bearerToken h⟩

/-- A request whose last header with a token is `line` passes the check with the token that is
found there. -/
theorem passesTokenCheck_iff {before after : List String} {line path : String}
    (hlines : headerLines stream = before ++ line :: after)
    (hafter : ∀ l ∈ after, ¬ IsAuthorization l)
    (hv : (toAsciiLowercase line).toList = "authorization:".toList ++ v.toList)
    (hpath : requestPath stream = some path) (hapi : startsWith path "/api/" = true)
    (hrouted : ∃ call, handleHttp stream = .routed call) :
    PassesTokenCheck t stream ↔ bearerToken (some (trim v)) = some t := by
  obtain ⟨call, hcall⟩ := hrouted
  obtain ⟨hcall_path, hcall_auth⟩ := handleHttp_eq_routed hcall
  rw [hlines, authorization_foldl hv hafter] at hcall_auth
  obtain rfl : path = call.path := Option.some.inj (hpath.symm.trans hcall_path)
  rw [← hcall_auth, ← tokenAuthorized_iff]
  have hcheck : call.unauthorized t = false ↔ tokenAuthorized t call.authorization = true := by
    rw [RouteCall.unauthorized, hapi, Bool.true_and, Bool.not_eq_false']
  constructor
  · rintro ⟨call', hcall', hpasses⟩
    rw [hcall] at hcall'
    obtain rfl := HttpOutcome.routed.inj hcall'
    exact hcheck.mp hpasses
  · exact fun hpasses => ⟨call, hcall, hcheck.mpr hpasses⟩

/-- A line with the token `x` carries `x` in lower case. -/
theorem exists_value {x : String} (hx : NoWhitespace x) : ∃ v : String,
    (toAsciiLowercase (trimEnd ("Authorization: Bearer " ++ x))).toList =
      "authorization:".toList ++ v.toList ∧
    ∀ t, t ≠ "" → (bearerToken (some (trim v)) = some t ↔ toAsciiLowercase x = t) := by
  by_cases hempty : x = ""
  -- the space behind the scheme is trimmed, too, and there is no second part
  · subst hempty
    refine ⟨" bearer", by decide +kernel, fun t ht => iff_of_false ?_ fun heq => ht ?_⟩
    · have hnone : bearerToken (some (trim " bearer")) = none := by decide +kernel
      rw [hnone]
      exact fun h => by cases h
    · rw [← heq]
      rfl
  · have hne : x.toList ≠ [] := fun hnil => hempty (String.toList_inj.mp hnil)
    have htrim : trimEnd ("Authorization: Bearer " ++ x) = "Authorization: Bearer " ++ x := by
      refine trimEnd_eq_self fun c hc => ?_
      rw [String.toList_append, List.getLast?_append_of_ne_nil _ hne] at hc
      exact hx c (List.mem_of_mem_getLast? hc)
    have hlower : toAsciiLowercase "Authorization: Bearer " = "authorization: bearer " := by
      decide +kernel
    have hlower_ne : toAsciiLowercase x ≠ "" := fun heq => hne (by
      rw [← String.toList_inj, toList_toAsciiLowercase] at heq
      exact List.map_eq_nil_iff.mp heq)
    refine ⟨" bearer " ++ toAsciiLowercase x, ?_, fun t _ => ?_⟩
    · rw [htrim, toAsciiLowercase_append, hlower]
      simp
    · have hvalue : HasBearer (" bearer " ++ toAsciiLowercase x) (toAsciiLowercase x) :=
        ⟨"bearer", [' '], [], [], by decide +kernel, List.forall_mem_singleton.mpr rfl,
          List.forall_mem_nil _, List.forall_mem_nil _, by simp⟩
      rw [bearerToken_of_hasBearer hlower_ne (noWhitespace_toAsciiLowercase hx) hvalue,
        Option.some_inj]

/-- A token file that can be read and is not blank has the token. -/
theorem loadWebToken_of_ne {content : String} (hne : trim content ≠ "") (generated : String) :
    loadWebToken (some content) generated = trim content := if_neg hne

/-- The check of the token lets exactly the token pass. -/
def TokenCheckExact (content generated : String) (stream : Bytes) (x : String) : Prop :=
  PassesTokenCheck (loadWebToken (some content) generated) stream ↔ x = trim content

/-- For a token file with the token `t` and a request to the API with the header line
`Authorization: Bearer x`: if the request does not reach `route`, the check is exact if and only if
`x` is not `t`. If it does and the line is the last one of its kind, the check is exact if and only
if `x` has no capital letters, or `t` is neither `x` nor `x` in lower case. If another such line is
the last one, the check is exact if and only if that line carries `t` just when `x` is `t`. -/
theorem token_check_exact {content x path : String} (generated : String)
    {before after : List String} (hne : trim content ≠ "") (hws : NoWhitespace (trim content))
    (hx : NoWhitespace x)
    (hlines : headerLines stream = before ++ trimEnd ("Authorization: Bearer " ++ x) :: after)
    (hpath : requestPath stream = some path) (hapi : startsWith path "/api/" = true) :
    ((¬ ∃ call, handleHttp stream = .routed call) →
      (TokenCheckExact content generated stream x ↔ x ≠ trim content)) ∧
    ((∃ call, handleHttp stream = .routed call) →
      ((∀ l ∈ after, ¬ IsAuthorization l) →
        (TokenCheckExact content generated stream x ↔
          (∀ c ∈ x.toList, ¬ ('A' ≤ c ∧ c ≤ 'Z')) ∨
            trim content ≠ x ∧ trim content ≠ toAsciiLowercase x)) ∧
      ∀ middle last rest, after = middle ++ last :: rest → IsAuthorization last →
        (∀ l ∈ rest, ¬ IsAuthorization l) →
        (TokenCheckExact content generated stream x ↔ (Carries last (trim content) ↔
          x = trim content))) := by
  rw [TokenCheckExact, loadWebToken_of_ne hne]
  refine ⟨fun hdropped => ?_, fun hrouted => ⟨fun hafter => ?_, ?_⟩⟩
  · have hnot : ¬ PassesTokenCheck (trim content) stream := by
      rintro ⟨call, hcall, -⟩
      exact hdropped ⟨call, hcall⟩
    exact iff_false_left hnot
  · obtain ⟨v, hv, hvalue⟩ := exists_value hx
    rw [passesTokenCheck_iff hlines hafter hv hpath hapi hrouted, hvalue _ hne,
      ← toAsciiLowercase_eq_self_iff]
    by_cases hlower : toAsciiLowercase x = x
    · exact iff_of_true (by rw [hlower]) (Or.inl hlower)
    · -- a capital letter: neither `x` nor its lower case may be the token
      constructor
      · intro hexact
        refine Or.inr ⟨fun heq => hlower ?_, fun heq => hlower ?_⟩
        · exact (hexact.mpr heq.symm).trans heq
        · exact heq.symm.trans (hexact.mp heq.symm).symm
      · rintro (h | ⟨hne_x, hne_lower⟩)
        · exact absurd h hlower
        · exact iff_of_false hne_lower.symm hne_x.symm
  · rintro middle last rest rfl hlast hrest
    obtain ⟨v, hv⟩ := exists_of_startsWith hlast
    have hlines' : headerLines stream =
        (before ++ trimEnd ("Authorization: Bearer " ++ x) :: middle) ++ last :: rest := by
      rw [hlines, List.append_assoc, List.cons_append]
    rw [passesTokenCheck_iff hlines' hrest hv hpath hapi hrouted, carries_iff hv hne hws]

/-- A request for the status, with the token `x`. -/
def statusRequest (x : String) : Bytes :=
  asBytes s!"GET /api/status HTTP/1.1\r\nAuthorization: Bearer {x}\r\n\r\n"

/-- A token without capitals, and a request without the header. -/
theorem token_check_exact_secret :
    ((¬ ∃ call, handleHttp (statusRequest "secret") = .routed call) →
      (TokenCheckExact "secret\n" "" (statusRequest "secret") "secret" ↔
        "secret" ≠ trim "secret\n")) ∧
    ((∃ call, handleHttp (statusRequest "secret") = .routed call) →
      ((∀ l ∈ ([] : List String), ¬ IsAuthorization l) →
        (TokenCheckExact "secret\n" "" (statusRequest "secret") "secret" ↔
          (∀ c ∈ "secret".toList, ¬ ('A' ≤ c ∧ c ≤ 'Z')) ∨
            trim "secret\n" ≠ "secret" ∧ trim "secret\n" ≠ toAsciiLowercase "secret")) ∧
      ∀ middle last rest, [] = middle ++ last :: rest → IsAuthorization last →
        (∀ l ∈ rest, ¬ IsAuthorization l) →
        (TokenCheckExact "secret\n" "" (statusRequest "secret") "secret" ↔
          (Carries last (trim "secret\n") ↔ "secret" = trim "secret\n"))) :=
  @token_check_exact (statusRequest "secret") "secret\n" "secret" "/api/status" "" [] []
    (by decide +kernel) (by decide +kernel) (by decide +kernel) (by decide +kernel)
    (by decide +kernel) (by decide +kernel)

/-- The token `Secret` is refused: it reaches `route` as `secret`. -/
theorem token_refused :
    handleHttp (statusRequest "Secret") =
      .routed ⟨"GET", "/api/status", "", some "bearer secret"⟩ ∧
    ¬ ∀ (content generated x path : String) (stream : Bytes), trim content ≠ "" →
      NoWhitespace (trim content) → NoWhitespace x →
      trimEnd ("Authorization: Bearer " ++ x) ∈ headerLines stream →
      requestPath stream = some path → startsWith path "/api/" = true →
      TokenCheckExact content generated stream x := by
  refine ⟨by decide +kernel, fun hclaim => ?_⟩
  have hexact := hclaim "Secret\n" "" "Secret" "/api/status" (statusRequest "Secret")
    (by decide +kernel) (by decide +kernel) (by decide +kernel) (by decide +kernel)
    (by decide +kernel) (by decide +kernel)
  obtain ⟨call, hcall, hpasses⟩ := hexact.mpr (by decide +kernel)
  have hlines : headerLines (statusRequest "Secret") =
      [] ++ "Authorization: Bearer Secret" :: [] := by decide +kernel
  have hv : (toAsciiLowercase "Authorization: Bearer Secret").toList =
      "authorization:".toList ++ " bearer secret".toList := by decide +kernel
  have hbearer := (passesTokenCheck_iff hlines (List.forall_mem_nil _) hv
    (by decide +kernel : requestPath (statusRequest "Secret") = some "/api/status")
    (by decide +kernel) ⟨call, hcall⟩).mp ⟨call, hcall, hpasses⟩
  revert hbearer
  decide +kernel

end ChronoShift
