import ChronoShift.Web

/-!
# Requests to the web console

The requests that `handle_http` passes on to `route`, for every stream of bytes: a request line,
header lines, a blank line, and a body. Of several headers of a name the last one counts, so that
there is one `Host` and one `Origin` to check.

* `readLimitedLine_eq_line_iff`: the lines that are read;
* `readHeaders_eq_some_iff`: the header lines that are read;
* `Headers.foldl_add`: the headers that count;
* `handleHttp_routed_iff`: the requests that reach `route`.
-/

namespace ChronoShift

open ToMathlib

variable {stream rest line : Bytes} {max : ℕ} {text : String}

/-! ## Lines -/

/-- The bytes are a line with its terminator. -/
def Terminated (line : Bytes) : Prop := ∃ l : Bytes, 10 ∉ l ∧ line = l ++ [10]

/-- The bytes are a line of a stream, with `rest` after it. The last line of the stream need not be
terminated. -/
def IsLine (line rest : Bytes) : Prop :=
  Terminated line ∨ (line ≠ [] ∧ 10 ∉ line ∧ rest = [])

/-- A line has at least one byte. -/
theorem IsLine.ne_nil (h : IsLine line rest) : line ≠ [] := by
  rcases h with ⟨l, -, rfl⟩ | ⟨hne, -⟩
  · exact List.append_ne_nil_of_right_ne_nil l (List.cons_ne_nil 10 [])
  · exact hne

/-- A line with something after it is terminated. -/
theorem IsLine.terminated (h : IsLine line rest) (hrest : rest ≠ []) : Terminated line :=
  h.resolve_right fun hlast => hrest hlast.2.2

/-- What is read from a stream that has not ended is a line. -/
theorem isLine_readUntilNewline (hne : stream ≠ []) :
    IsLine (readUntilNewline stream) (stream.drop (readUntilNewline stream).length) ∧
      readUntilNewline stream ++ stream.drop (readUntilNewline stream).length = stream := by
  by_cases hmem : 10 ∈ stream
  · obtain ⟨l, rest, rfl, hl⟩ := List.eq_append_cons_of_mem hmem
    rw [readUntilNewline_append hl, List.append_cons l 10 rest, List.drop_left]
    exact ⟨.inl ⟨l, hl, rfl⟩, rfl⟩
  · rw [readUntilNewline_of_notMem hmem, List.drop_length, List.append_nil]
    exact ⟨.inr ⟨hne, hmem, rfl⟩, rfl⟩

/-- A line that the limit does not reach is read in full. -/
theorem IsLine.readUntilNewline_take (h : IsLine line rest) {n : ℕ} (hn : line.length ≤ n) :
    readUntilNewline ((line ++ rest).take n) = line := by
  rcases h with ⟨l, hl, rfl⟩ | ⟨-, hmem, rfl⟩
  · rw [List.take_append, List.take_of_length_le hn, List.append_assoc, List.singleton_append,
      readUntilNewline_append hl]
  · rw [List.append_nil, List.take_of_length_le hn, readUntilNewline_of_notMem hmem]

/-- What is read is the first line, if it is within the limit. -/
theorem readLimitedLine_eq_line_iff : readLimitedLine max stream = .line text rest ↔
    ∃ line, IsLine line rest ∧ line ++ rest = stream ∧ line.length ≤ max ∧
      fromUtf8Lossy line = text := by
  constructor
  · intro h
    have hne : stream ≠ [] := (readLimitedLine_eq_line h).1
    rw [readLimitedLine] at h
    split at h
    next => cases h
    next =>
      split at h
      next => cases h
      next hlen =>
        rw [readUntilNewline_take (Nat.lt_succ_of_le (not_lt.mp hlen))] at h hlen
        cases h
        obtain ⟨hline, hstream⟩ := isLine_readUntilNewline hne
        exact ⟨_, hline, hstream, not_lt.mp hlen, rfl⟩
  · rintro ⟨line, hline, rfl, hlen, rfl⟩
    have htake := hline.readUntilNewline_take (Nat.le_succ_of_le hlen)
    rw [readLimitedLine, htake, if_neg (List.length_eq_zero_iff.not.mpr hline.ne_nil),
      if_neg (not_lt.mpr hlen), List.drop_left]

/-! ## Header lines -/

/-- A header line as it is looked at. -/
def headerText (line : Bytes) : String := trimEnd (fromUtf8Lossy line)

/-- What a header line counts for in the limit of all headers. -/
def headerSize (line : Bytes) : ℕ := (asBytes (fromUtf8Lossy line)).length

/-- The bytes are header lines and the blank line that ends them, all within the limit of a line. -/
structure HeaderLines (lines : List Bytes) (blank rest : Bytes) : Prop where
  terminated : ∀ line ∈ lines, Terminated line ∧ headerText line ≠ ""
  ends : IsLine blank rest ∧ headerText blank = ""
  length_le : ∀ line ∈ lines ++ [blank], line.length ≤ 2048

/-- A header line that is not too long, with what it does. -/
theorem readHeaders_line {headerBytes : ℕ} {h : Headers} (hline : IsLine line rest)
    (hlen : line.length ≤ 2048) : readHeaders headerBytes h (line ++ rest) =
      if 16384 < headerBytes + headerSize line then none
      else if headerText line = "" then some (h, rest)
      else readHeaders (headerBytes + headerSize line) (h.add (headerText line)) rest := by
  have hread : readLimitedLine 2048 (line ++ rest) = .line (fromUtf8Lossy line) rest :=
    readLimitedLine_eq_line_iff.mpr ⟨line, hline, rfl, hlen, rfl⟩
  rw [readHeaders]
  split
  next text rest' hread' =>
    rw [hread] at hread'
    cases hread'
    rfl
  next hread' =>
    rw [hread] at hread'
    cases hread'
  next hread' =>
    rw [hread] at hread'
    cases hread'

/-- A line that is not blank comes before the others. -/
theorem HeaderLines.cons {lines : List Bytes} {blank : Bytes}
    (hlines : HeaderLines lines blank rest)
    (hline : IsLine line (lines.flatten ++ (blank ++ rest))) (htext : headerText line ≠ "")
    (hlen : line.length ≤ 2048) : HeaderLines (line :: lines) blank rest := by
  have hne : lines.flatten ++ (blank ++ rest) ≠ [] :=
    List.append_ne_nil_of_right_ne_nil _
      (List.append_ne_nil_of_left_ne_nil hlines.ends.1.ne_nil rest)
  exact ⟨List.forall_mem_cons.mpr ⟨⟨hline.terminated hne, htext⟩, hlines.terminated⟩, hlines.ends,
    List.forall_mem_cons.mpr ⟨hlen, hlines.length_le⟩⟩

/-- The first of several header lines. -/
theorem HeaderLines.of_cons {lines : List Bytes} {blank : Bytes}
    (hlines : HeaderLines (line :: lines) blank rest) :
    (IsLine line (lines.flatten ++ (blank ++ rest)) ∧ headerText line ≠ "" ∧ line.length ≤ 2048) ∧
      HeaderLines lines blank rest := by
  obtain ⟨⟨hline, htext⟩, hterminated⟩ := List.forall_mem_cons.mp hlines.terminated
  obtain ⟨hlen, hlengths⟩ := List.forall_mem_cons.mp hlines.length_le
  exact ⟨⟨.inl hline, htext, hlen⟩, hterminated, hlines.ends, hlengths⟩

/-- The headers that are read are those of the lines before the blank one. -/
theorem readHeaders_eq_some_iff {headerBytes : ℕ} {h h' : Headers} :
    readHeaders headerBytes h stream = some (h', rest) ↔
      ∃ lines blank, HeaderLines lines blank rest ∧ lines.flatten ++ (blank ++ rest) = stream ∧
        headerBytes + ((lines ++ [blank]).map headerSize).sum ≤ 16384 ∧
        (lines.map headerText).foldl Headers.add h = h' := by
  constructor
  · intro hread
    -- along the recursion of the reader
    fun_induction readHeaders headerBytes h stream with
    | case1 => cases hread
    | case2 headerBytes h stream text rest₁ hfirst _ hsize trimmed hblank =>
      cases hread
      obtain ⟨blank, hline, rfl, hlen, rfl⟩ := readLimitedLine_eq_line_iff.mp hfirst
      refine ⟨[], blank, ⟨List.forall_mem_nil _, ⟨hline, hblank⟩, ?_⟩, rfl, ?_, rfl⟩
      · exact List.forall_mem_cons.mpr ⟨hlen, List.forall_mem_nil _⟩
      · exact not_lt.mp hsize
    | case3 headerBytes h stream text rest₁ hfirst _ hsize trimmed hblank ih =>
      obtain ⟨line, hline, rfl, hlen, rfl⟩ := readLimitedLine_eq_line_iff.mp hfirst
      obtain ⟨lines, blank, hlines, rfl, htotal, rfl⟩ := ih hread
      refine ⟨line :: lines, blank, hlines.cons hline hblank hlen, ?_, ?_, ?_⟩
      · rw [List.flatten_cons, List.append_assoc]
      · rw [List.cons_append, List.map_cons, List.sum_cons, ← Nat.add_assoc]
        exact htotal
      · rw [List.map_cons, List.foldl_cons]
        rfl
    | case4 => cases hread
    | case5 => cases hread
  · rintro ⟨lines, blank, hlines, rfl, htotal, rfl⟩
    -- along the lines, each of which the reader takes in full
    induction lines generalizing headerBytes h with
    | nil =>
      rw [List.nil_append, List.map_singleton, List.sum_singleton] at htotal
      rw [List.flatten_nil, List.nil_append,
        readHeaders_line hlines.ends.1 (hlines.length_le blank List.mem_cons_self),
        if_neg (not_lt.mpr htotal), if_pos hlines.ends.2, List.map_nil, List.foldl_nil]
    | cons line lines ih =>
      obtain ⟨⟨hline, htext, hlen⟩, hrest⟩ := hlines.of_cons
      rw [List.cons_append, List.map_cons, List.sum_cons, ← Nat.add_assoc] at htotal
      rw [List.flatten_cons, List.append_assoc, readHeaders_line hline hlen,
        if_neg (not_lt.mpr ((Nat.le_add_right _ _).trans htotal)), if_neg htext,
        ih hrest htotal, List.map_cons, List.foldl_cons]

/-! ## The headers that count -/

/-- The names of the headers that are kept. -/
def headerNames : List String :=
  ["content-length:", "authorization:", "host:", "origin:", "content-type:"]

/-- What follows the name of a header in a line, in lower case. -/
def headerValue (name line : String) : Option String :=
  (stripPrefix (toAsciiLowercase line) name).map trim

/-- The value in the last line with the name. -/
def lastValue (name : String) (lines : List String) : Option String :=
  (lines.filterMap (headerValue name)).getLast?

/-- A header that comes later counts more. -/
theorem lastValue_concat (name : String) (lines : List String) (line : String) :
    lastValue name (lines ++ [line]) = (headerValue name line).or (lastValue name lines) := by
  rw [lastValue, List.filterMap_append]
  cases hvalue : headerValue name line with
  | none =>
    rw [List.filterMap_cons_none hvalue, List.filterMap_nil, List.append_nil, Option.none_or]
    rfl
  | some v =>
    rw [List.filterMap_cons_some hvalue, List.filterMap_nil, List.getLast?_concat, Option.some_or]

/-- No name begins another one, so that a line has at most one of them. -/
theorem stripPrefix_of_name {s name v : String} (hname : name ∈ headerNames)
    (hv : stripPrefix s name = some v) :
    ∀ name' ∈ headerNames, stripPrefix s name' = if name' = name then some v else none := by
  intro name' hname'
  split
  next heq => rw [heq, hv]
  next hne =>
    have hapart : ∀ a ∈ headerNames, ∀ b ∈ headerNames, a ≠ b → ¬ a.toList <+: b.toList := by
      decide
    rw [Option.eq_none_iff_forall_ne_some]
    intro v' hv'
    rw [stripPrefix_eq_some_iff] at hv hv'
    rcases List.prefix_or_prefix_of_prefix ⟨v.toList, hv.symm⟩ ⟨v'.toList, hv'.symm⟩ with h | h
    · exact hapart name hname name' hname' (Ne.symm hne) h
    · exact hapart name' hname' name hname hne h

namespace Headers

/-- The headers of a request, from its lines. -/
def ofLines (lines : List String) : Headers where
  contentLength :=
    min (((lastValue "content-length:" lines).bind (parseUnsigned (2 ^ 64))).getD 0) 65536
  authorization := lastValue "authorization:" lines
  host := lastValue "host:" lines
  origin := lastValue "origin:" lines
  contentType := lastValue "content-type:" lines

/-- The headers of a request are read line by line. -/
theorem ofLines_concat (lines : List String) (line : String) :
    ofLines (lines ++ [line]) = (ofLines lines).add line := by
  simp only [ofLines, lastValue_concat, headerValue, add]
  by_cases hany : ∃ name ∈ headerNames, ∃ v, stripPrefix (toAsciiLowercase line) name = some v
  -- the value of the line replaces the one of its name
  · obtain ⟨name, hname, v, hv⟩ := hany
    have hstrip := stripPrefix_of_name hname hv
    simp only [headerNames, List.forall_mem_cons] at hstrip
    simp only [headerNames, List.mem_cons, List.not_mem_nil, or_false] at hname
    rcases hname with rfl | rfl | rfl | rfl | rfl <;> simp [hstrip]
  · have hnone : ∀ name ∈ headerNames, stripPrefix (toAsciiLowercase line) name = none :=
      fun name hname => Option.eq_none_iff_forall_ne_some.mpr fun v hv => hany ⟨name, hname, v, hv⟩
    simp only [headerNames, List.forall_mem_cons] at hnone
    simp [hnone]

/-- Of several lines with a name the last one counts. -/
theorem foldl_add (lines : List String) : lines.foldl add {} = ofLines lines := by
  induction lines using List.reverseRecOn with
  | nil => rfl
  | append_singleton lines line ih =>
    rw [List.foldl_append, List.foldl_cons, List.foldl_nil, ih, ofLines_concat]

end Headers

/-! ## Requests -/

/-- What the checks of the headers, of a request with this method and path, let pass. -/
structure Headers.Accepts (h : Headers) (method path : String) (rest : Bytes) (call : RouteCall) :
    Prop where
  words : call.method = method ∧ call.path = path
  host : ∀ v ∈ h.host, hostAllowed v = true
  origin : ∀ v ∈ h.origin, originAllowed v = true
  contentType : method = "POST" → path = "/api/connect" →
    ∃ v ∈ h.contentType, ctAllowsJson v = true
  body : if method = "POST" ∧ 0 < h.contentLength then
      h.contentLength ≤ rest.length ∧ call.body = fromUtf8Lossy (rest.take h.contentLength)
    else call.body = ""
  authorization : call.authorization = h.authorization

/-- A header that is there and meets the condition. -/
theorem any_iff {f : String → Bool} {o : Option String} :
    o.any f = true ↔ ∃ v ∈ o, f v = true := by
  cases o <;> simp

/-- A header that is not there meets every condition. -/
theorem not_any_iff {f : String → Bool} {o : Option String} :
    ¬ o.any (fun v => !f v) = true ↔ ∀ v ∈ o, f v = true := by
  cases o <;> simp

/-- The checks before routing, read as conditions on the headers. -/
theorem checkHeaders_eq_routed_iff {method path : String} {h : Headers} {call : RouteCall} :
    checkHeaders method path h rest = .routed call ↔ h.Accepts method path rest call := by
  constructor
  · intro hrouted
    rw [checkHeaders] at hrouted
    split at hrouted
    next => cases hrouted
    next hhost =>
    split at hrouted
    next => cases hrouted
    next horigin =>
    split at hrouted
    next => cases hrouted
    next hcontent =>
    -- the checks that were passed, in their order
    have htype (hpost : method = "POST") (hpath : path = "/api/connect") :
        ∃ v ∈ h.contentType, ctAllowsJson v = true :=
      any_iff.mp (not_not.mp fun hjson => hcontent ⟨hpost, hpath, hjson⟩)
    split at hrouted
    next hbody =>
      split at hrouted
      next => cases hrouted
      next hlen =>
        cases hrouted
        exact ⟨⟨rfl, rfl⟩, not_any_iff.mp hhost, not_any_iff.mp horigin, htype,
          by rw [if_pos hbody]; exact ⟨not_lt.mp hlen, rfl⟩, rfl⟩
    next hbody =>
      cases hrouted
      exact ⟨⟨rfl, rfl⟩, not_any_iff.mp hhost, not_any_iff.mp horigin, htype,
        by rw [if_neg hbody], rfl⟩
  · rintro ⟨⟨hmethod, hpath⟩, hhost, horigin, htype, hbody, hauthorization⟩
    have hcontent : ¬ (method = "POST" ∧ path = "/api/connect" ∧
        ¬ h.contentType.any ctAllowsJson = true) :=
      fun hall => hall.2.2 (any_iff.mpr (htype hall.1 hall.2.1))
    rw [checkHeaders, if_neg (not_any_iff.mpr hhost), if_neg (not_any_iff.mpr horigin),
      if_neg hcontent]
    cases call
    cases hmethod
    cases hpath
    cases hauthorization
    split
    next hpost =>
      rw [if_pos hpost] at hbody
      rw [if_neg (not_lt.mpr hbody.1), ← hbody.2]
    next hpost =>
      rw [if_neg hpost] at hbody
      rw [← hbody]

/-- The parts of a request. -/
structure RequestParts where
  requestLine : Bytes
  headerLines : List Bytes
  blank : Bytes
  rest : Bytes

namespace RequestParts

def bytes (r : RequestParts) : Bytes :=
  r.requestLine ++ (r.headerLines.flatten ++ (r.blank ++ r.rest))

/-- The headers, of which the last one of each name counts. -/
def headers (r : RequestParts) : Headers := .ofLines (r.headerLines.map headerText)

/-- The parts are lines, and within the limits. -/
structure Valid (r : RequestParts) : Prop where
  requestLine : Terminated r.requestLine ∧ r.requestLine.length ≤ 8192
  headerLines : HeaderLines r.headerLines r.blank r.rest
  size_le : ((r.headerLines ++ [r.blank]).map headerSize).sum ≤ 16384

/-- The words of the request line, of which the first two count. -/
def words (r : RequestParts) : List String := splitWhitespace (fromUtf8Lossy r.requestLine)

end RequestParts

/-- The requests that reach `route`, among all streams of bytes: those that consist of a request
line with at least two words, header lines that are not blank, a blank line and a rest, all within
the limits, of which the last `Host` and the last `Origin`, where there are any, are the ones of the
console, and the last `Content-Type` of a request to connect is the one of JSON. Only a `POST` has a
body: the beginning of the rest, of the length that the last `Content-Length` says, if that is a
number. -/
theorem handleHttp_routed_iff {call : RouteCall} : handleHttp stream = .routed call ↔
    ∃ r : RequestParts, r.bytes = stream ∧ r.Valid ∧ ∃ method path more,
      r.words = method :: path :: more ∧ r.headers.Accepts method path r.rest call := by
  constructor
  · intro hrouted
    rw [handleHttp] at hrouted
    split at hrouted
    next text rest hline =>
      split at hrouted
      next method path more hwords =>
        split at hrouted
        next h rest' hheaders =>
          -- both readers have returned, and give the parts of the request
          obtain ⟨first, hfirst, rfl, hlen, rfl⟩ := readLimitedLine_eq_line_iff.mp hline
          obtain ⟨lines, blank, hlines, rfl, hsize, rfl⟩ := readHeaders_eq_some_iff.mp hheaders
          rw [Headers.foldl_add] at hrouted
          refine ⟨⟨first, lines, blank, rest'⟩, rfl, ⟨⟨?_, hlen⟩, hlines, ?_⟩, method, path, more,
            hwords, checkHeaders_eq_routed_iff.mp hrouted⟩
          · exact hfirst.terminated (List.append_ne_nil_of_right_ne_nil _
              (List.append_ne_nil_of_left_ne_nil hlines.ends.1.ne_nil rest'))
          · rwa [Nat.zero_add] at hsize
        next => cases hrouted
      next => cases hrouted
    next => cases hrouted
    next => cases hrouted
  · rintro ⟨⟨first, lines, blank, rest⟩, rfl, ⟨⟨hfirst, hlen⟩, hlines, hsize⟩, method, path, more,
      hwords, haccepts⟩
    have hline : readLimitedLine 8192 (first ++ (lines.flatten ++ (blank ++ rest))) =
        .line (fromUtf8Lossy first) (lines.flatten ++ (blank ++ rest)) :=
      readLimitedLine_eq_line_iff.mpr ⟨first, .inl hfirst, rfl, hlen, rfl⟩
    have hheaders : readHeaders 0 {} (lines.flatten ++ (blank ++ rest)) =
        some (Headers.ofLines (lines.map headerText), rest) :=
      readHeaders_eq_some_iff.mpr ⟨lines, blank, hlines, rfl, by rwa [Nat.zero_add],
        Headers.foldl_add _⟩
    have hwords' : splitWhitespace (fromUtf8Lossy first) = method :: path :: more := hwords
    rw [RequestParts.bytes, handleHttp, hline]
    dsimp only
    rw [hwords']
    dsimp only
    rw [hheaders]
    exact checkHeaders_eq_routed_iff.mpr haccepts

end ChronoShift
