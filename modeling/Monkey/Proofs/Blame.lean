import Monkey.Proofs.ExactReading
import Monkey.Proofs.Laws
import Monkey.Proofs.Seam
import Monkey.Proofs.Tokenization

/-!
# Errors blame the tokens in their order

Reading never goes back, so its errors come in the order of the tokens that they blame.  One token
can be blamed twice: by the part before it, which would have had another token there, and, once
reading has gone on from there, by a statement that should start with it.  That is all, since the
token after a failure is not looked at before it is the current one; only the end token can be
blamed by ever more blocks that are not closed.

## Main definitions

* `Complains`, `Orderly` — a walk over the tokens that complains about some of them.
* `Reports` — errors that are about the tokens of a list, one token after another.

## Main results

* `reports_parseTokens` — **the errors are about the tokens, in their order, and about each of them
  two at most.**
* `parse_errors_in_order` — the same of a source, where every error has its place in the text.
-/

namespace Monkey

/-! ### Walking and complaining -/

/-- Going from one cursor to another one, which complains about the tokens on the way.  The numbers
count the complaints about the current token, before and after. -/
inductive Complains : Cursor → Nat → List ParseError → Cursor → Nat → Prop
  | stay {c : Cursor} {k : Nat} : Complains c k [] c k
  | move {c d : Cursor} {k l : Nat} {es : List ParseError} : c.ahead ≠ [] →
    Complains c.advance 0 es d l → Complains c k es d l
  | blame {c d : Cursor} {k l : Nat} {e : ParseError} {es : List ParseError} :
    e.Blames c.current → (c.current.kind ≠ .eof → k < 2) → Complains c (k + 1) es d l →
    Complains c k (e :: es) d l

/-- One complaint at most about the current token, unless it is an end token. -/
def Cursor.Spared (c : Cursor) (k : Nat) : Prop := c.current.kind ≠ .eof → k ≤ 1

namespace Complains

variable {c d e : Cursor} {k l m : Nat} {es fs : List ParseError}

theorem trans (h : Complains c k es d l) (h' : Complains d l fs e m) :
    Complains c k (es ++ fs) e m := by
  induction h with
  | stay => exact h'
  | move hne _ ih => exact .move hne (ih h')
  | blame he hk _ ih => exact .blame he hk (ih h')

end Complains

/-- Where the current token has been blamed once at most, no token is blamed more than twice on the
way, and the current token at the end of it once at most. -/
def Orderly (c : Cursor) (es : List ParseError) (d : Cursor) : Prop :=
  c.Closed → d.Closed ∧ ∀ k, c.Spared k → ∃ l, d.Spared l ∧ Complains c k es d l

namespace Orderly

variable {c d e : Cursor} {es fs : List ParseError} {err : ParseError}

theorem stay (c : Cursor) : Orderly c [] c := fun hc => ⟨hc, fun k hk => ⟨k, hk, .stay⟩⟩

theorem move (c : Cursor) : Orderly c [] c.advance := by
  intro hc
  refine ⟨hc.advance, fun k hk => ?_⟩
  by_cases hnil : c.ahead = []
  · rw [Cursor.advance_of_nil hnil]
    exact ⟨k, hk, .stay⟩
  · exact ⟨0, fun _ => Nat.zero_le 1, .move hnil .stay⟩

theorem trans (h : Orderly c es d) (h' : Orderly d fs e) : Orderly c (es ++ fs) e := by
  intro hc
  obtain ⟨hd, hfirst⟩ := h hc
  obtain ⟨he, hsecond⟩ := h' hd
  refine ⟨he, fun k hk => ?_⟩
  obtain ⟨l, hl, hcomplains⟩ := hfirst k hk
  obtain ⟨m, hm, hcomplains'⟩ := hsecond l hl
  exact ⟨m, hm, hcomplains.trans hcomplains'⟩

/-- A complaint about the token after the current one, which is an end token if it is the same. -/
theorem blameNext (h : err.Blames c.next) : Orderly c [err] c.advance := by
  intro hc
  refine ⟨hc.advance, fun k hk => ?_⟩
  rw [← Cursor.current_advance] at h
  by_cases hnil : c.ahead = []
  · have heof : c.current.kind = .eof := hc.current_of_nil hnil
    rw [Cursor.advance_of_nil hnil] at h ⊢
    exact ⟨k + 1, fun hne => absurd heof hne, .blame h (fun hne => absurd heof hne) .stay⟩
  · exact ⟨1, fun _ => Nat.le_refl 1, .move hnil (.blame h (fun _ => Nat.two_pos) .stay)⟩

/-- A complaint about the current token, if reading goes on at the next one. -/
theorem blameCurrent (h : err.Blames c.current) : Orderly c [err] c.advance := by
  by_cases hnil : c.ahead = []
  · have hnext : c.next = c.current := by
      rw [← Cursor.current_advance, Cursor.advance_of_nil hnil]
    exact blameNext (hnext ▸ h)
  · intro hc
    refine ⟨hc.advance, fun k hk => ⟨0, fun _ => Nat.zero_le 1, ?_⟩⟩
    exact .blame h (fun hne => Nat.lt_succ_of_le (hk hne)) (.move hnil .stay)

end Orderly

/-- Complaints are orderly; those of a failure leave it to the next token to be read. -/
def Parser.Law.orderly : Parser.Law where
  Done := Orderly
  Failed c es d := Orderly c es d.advance
  stay := Orderly.stay
  move := Orderly.move
  trans := Orderly.trans
  fail := Orderly.trans
  blameCurrent := Orderly.blameCurrent
  blameNext := Orderly.blameNext
  recover h := h

/-! ### Errors token by token -/

/-- The errors are about the tokens one after another, and about none but an end token more than
two. -/
inductive Reports : List Token → List ParseError → Prop
  | nil : Reports [] []
  | token {t : Token} {ts : List Token} {es fs : List ParseError} : (∀ e ∈ es, e.Blames t) →
    (t.kind ≠ .eof → es.length ≤ 2) → Reports ts fs → Reports (t :: ts) (es ++ fs)

namespace Reports

theorem none : ∀ ts : List Token, Reports ts []
  | [] => .nil
  | t :: ts => @token t ts [] [] (by simp) (by simp) (none ts)

variable {ts : List Token} {es : List ParseError}

/-- Every error is about a token of the list. -/
theorem exists_blames (h : Reports ts es) : ∀ e ∈ es, ∃ t ∈ ts, e.Blames t := by
  induction h with
  | nil => simp
  | @token t ts es fs hes _ _ ih =>
    intro e he
    rcases List.mem_append.1 he with he | he
    · exact ⟨t, List.mem_cons_self .., hes e he⟩
    · obtain ⟨u, hu, hblames⟩ := ih e he
      exact ⟨u, List.mem_cons_of_mem _ hu, hblames⟩

/-- If the tokens are in the order of the text, so are the errors. -/
theorem pairwise_le (h : Reports ts es)
    (hts : ts.Pairwise fun t u => t.span.start < u.span.start) :
    es.Pairwise fun e f => e.span.start ≤ f.span.start := by
  induction h with
  | nil => exact .nil
  | @token t ts es fs hes _ hrest ih =>
    obtain ⟨hfirst, hts⟩ := List.pairwise_cons.1 hts
    refine List.pairwise_append.2 ⟨?_, ih hts, ?_⟩
    · refine List.pairwise_of_forall_mem_list fun e he f hf => ?_
      rw [(hes e he).span_eq, (hes f hf).span_eq]
    · intro e he f hf
      obtain ⟨u, hu, hblames⟩ := hrest.exists_blames f hf
      rw [(hes e he).span_eq, hblames.span_eq]
      exact Nat.le_of_lt (hfirst u hu)

/-- Errors that start elsewhere do not have a given span. -/
theorem countP_span_eq_zero {s : Span} (h : ∀ e ∈ es, e.span.start ≠ s.start) :
    es.countP (·.span = s) = 0 := by
  refine List.countP_eq_zero.2 fun e he => ?_
  rw [decide_eq_true_eq]
  exact fun heq => h e he (congrArg Span.start heq)

/-- If no two tokens start at one place, two errors at most have the span of one of them. -/
theorem countP_le (h : Reports ts es)
    (hts : ts.Pairwise fun t u => t.span.start < u.span.start) :
    ∀ t ∈ ts, t.kind ≠ .eof → es.countP (·.span = t.span) ≤ 2 := by
  induction h with
  | nil => simp
  | @token t ts es fs hes htwo hrest ih =>
    obtain ⟨hfirst, hts⟩ := List.pairwise_cons.1 hts
    intro u hu hkind
    rw [List.countP_append]
    rcases List.mem_cons.1 hu with rfl | hu
    · -- the later errors are about later tokens
      have hlater : fs.countP (·.span = u.span) = 0 := by
        refine countP_span_eq_zero fun f hf => ?_
        obtain ⟨v, hv, hblames⟩ := hrest.exists_blames f hf
        rw [hblames.span_eq]
        exact (Nat.ne_of_lt (hfirst v hv)).symm
      have hhere : es.countP (·.span = u.span) ≤ es.length := List.countP_le_length
      have hlength := htwo hkind
      omega
    · have hhere : es.countP (·.span = u.span) = 0 := by
        refine countP_span_eq_zero fun e he => ?_
        rw [(hes e he).span_eq]
        exact Nat.ne_of_lt (hfirst u hu)
      have hrest := ih hts u hu hkind
      omega

end Reports

/-- The complaints of a walk, token by token. -/
theorem Complains.exists_reports {c d : Cursor} {k l : Nat} {es : List ParseError}
    (h : Complains c k es d l) : (c.current.kind ≠ .eof → k ≤ 2) →
    ∃ here later, es = here ++ later ∧ (∀ e ∈ here, e.Blames c.current) ∧
      (c.current.kind ≠ .eof → k + here.length ≤ 2) ∧ Reports c.rest later := by
  induction h with
  | @stay c k => exact fun hk => ⟨[], [], rfl, by simp, by simpa using hk, .none c.rest⟩
  -- a new token is at the front, and may be blamed twice again
  | @move c d k l es hne _ ih =>
    intro hk
    obtain ⟨here, later, rfl, hblames, hcount, hlater⟩ := ih fun _ => Nat.zero_le 2
    refine ⟨[], here ++ later, rfl, by simp, by simpa using hk, ?_⟩
    obtain ⟨t, rest⟩ := c
    cases rest with
    | nil => exact absurd rfl hne
    | cons u rest =>
      rw [Nat.zero_add] at hcount
      exact .token hblames hcount hlater
  -- the token at the front is blamed once more
  | @blame c d k l e es he hk _ ih =>
    intro _
    obtain ⟨here, later, rfl, hblames, hcount, hlater⟩ := ih hk
    refine ⟨e :: here, later, rfl, List.forall_mem_cons.2 ⟨he, hblames⟩, ?_, hlater⟩
    intro hne
    have htwo := hcount hne
    rw [List.length_cons]
    omega

/-- **The errors are about the tokens, in their order, and about each of them two at most**, save
the end tokens; this is so of every list of tokens. -/
theorem reports_parseTokens (tokens : List Token) :
    Reports (closeTokens tokens) (parseTokens tokens).errors := by
  have hkeeps := Parser.Law.program_keeps (L := .orderly) (tokens.length + 2)
    (Cursor.ofTokens tokens)
  -- the errors come with the cursors at which they were found, one after another
  have hwalk : ∃ d l, Complains (Cursor.ofTokens tokens) 0 (parseTokens tokens).errors d l := by
    rw [errors_parseTokens]
    cases hreply : Parser.program (tokens.length + 2) (Cursor.ofTokens tokens) with
    | exhausted => exact ⟨_, _, .stay⟩
    | done a es d =>
      rw [hreply] at hkeeps
      obtain ⟨l, -, hwalk⟩ := (hkeeps (Cursor.closed_ofTokens tokens)).2 0 fun _ => Nat.zero_le 1
      exact ⟨d, l, hwalk⟩
    | failed es d =>
      rw [hreply] at hkeeps
      obtain ⟨l, -, hwalk⟩ := (hkeeps (Cursor.closed_ofTokens tokens)).2 0 fun _ => Nat.zero_le 1
      exact ⟨d.advance, l, hwalk⟩
  obtain ⟨d, l, hwalk⟩ := hwalk
  obtain ⟨here, later, heq, hblames, hcount, hlater⟩ := hwalk.exists_reports fun _ => Nat.zero_le 2
  rw [Nat.zero_add] at hcount
  rw [heq, ← Cursor.tokens_ofTokens]
  exact .token hblames hcount hlater

/-! ### Errors in a source -/

section

variable {source : String} (hsize : source.utf8ByteSize < UInt32.size)
include hsize

/-- Every token stands for a slice of its source, the last one for an empty slice at the end. -/
theorem exists_slice_of_mem_lex : ∀ t ∈ lex source, ∃ before text after : String,
    source = before ++ text ++ after ∧
      t.span = ⟨before.utf8ByteSize, (before ++ text).utf8ByteSize⟩ := by
  obtain ⟨tokens, htokens⟩ := exists_tokenizes [] source.toList
  rw [htokens.lex_eq hsize, List.forall_mem_append, List.forall_mem_singleton]
  constructor
  · intro t ht
    obtain ⟨before, text, after, hsource, -, hspan, -⟩ := htokens.exists_slice t ht
    refine ⟨String.ofList before, String.ofList text, String.ofList after, ?_, ?_⟩
    · rw [← String.ofList_append, ← String.ofList_append, List.append_assoc, ← hsource,
        List.nil_append, String.ofList_toList]
    · rw [hspan, ← String.ofList_append, utf8ByteSize_ofList, utf8ByteSize_ofList]
  · exact ⟨source, "", "", by simp, by simp [Span.point]⟩

/-- Every token starts after all those before it. -/
theorem pairwise_start_lex : (lex source).Pairwise fun t u => t.span.start < u.span.start := by
  obtain ⟨tokens, htokens⟩ := exists_tokenizes [] source.toList
  -- no token but the last one is empty
  have hinside : ∀ t ∈ tokens, t.span.start < t.span.stop ∧ t.span.stop ≤ source.utf8ByteSize := by
    intro t ht
    obtain ⟨before, text, after, hsource, -, hspan, hlongest⟩ := htokens.exists_slice t ht
    have hpos := byteLength_pos hlongest.text_ne_nil
    have hlength := congrArg byteLength hsource
    rw [List.nil_append, byteLength_toList, byteLength_append, byteLength_append] at hlength
    rw [hspan, byteLength_append]
    constructor <;> dsimp only <;> omega
  rw [htokens.lex_eq hsize]
  refine List.pairwise_append.2 ⟨?_, List.pairwise_singleton _ _, ?_⟩
  · refine htokens.pairwise.imp_of_mem fun ht _ hle => ?_
    exact Nat.lt_of_lt_of_le (hinside _ ht).1 hle
  · intro t ht u hu
    rw [List.mem_singleton.1 hu]
    exact Nat.lt_of_lt_of_le (hinside t ht).1 (hinside t ht).2

end

/-- The tokens of a source need no end token put after them. -/
theorem closeTokens_lex (source : String) : closeTokens (lex source) = lex source := by
  obtain ⟨ts, hkinds, -⟩ := exists_kindsOf_eq source.toList
  rw [← map_kind_lex] at hkinds
  exact closeTokens_of_kinds hkinds

/-- **Errors come in the order of the source and point at the tokens that they name.**  In a source
of less than 2³² bytes, each error has the span of a token, which is a slice of the source, and it
names the class of that token or its digits.  No token but the end is blamed more than twice. -/
theorem parse_errors_in_order (source : String) (hsize : source.utf8ByteSize < UInt32.size) :
    (parse source).errors.Pairwise (fun e f => e.span.start ≤ f.span.start) ∧
      (∀ e ∈ (parse source).errors, ∃ t ∈ lex source, e.Blames t ∧
        ∃ before text after : String, source = before ++ text ++ after ∧
          e.span = ⟨before.utf8ByteSize, (before ++ text).utf8ByteSize⟩) ∧
      ∀ t ∈ lex source, t.kind ≠ .eof → (parse source).errors.countP (·.span = t.span) ≤ 2 := by
  have hreports := reports_parseTokens (lex source)
  rw [closeTokens_lex] at hreports
  have hstarts := pairwise_start_lex hsize
  refine ⟨hreports.pairwise_le hstarts, fun e he => ?_, hreports.countP_le hstarts⟩
  obtain ⟨t, ht, hblames⟩ := hreports.exists_blames e he
  obtain ⟨before, text, after, hsource, hspan⟩ := exists_slice_of_mem_lex hsize t ht
  exact ⟨t, ht, hblames, before, text, after, hsource, hblames.span_eq.trans hspan⟩

/-- A `let` blames the parenthesis after it, and then no statement starts with that; what follows is
a numeral that is too large and a block that is not closed. -/
theorem parse_errors_in_order_twice :
    (parse "let ) 9223372036854775808; if (x) \x7b").errors =
      [.unexpectedToken .ident (.symbol .rparen) ⟨4, 5⟩, .noPrefixRule (.symbol .rparen) ⟨4, 5⟩,
        .integerTooLarge "9223372036854775808" ⟨6, 25⟩,
        .noPrefixRule (.symbol .semicolon) ⟨25, 26⟩,
        .unexpectedToken (.symbol .rbrace) .eof ⟨35, 35⟩] ∧
      (parse "let ) 9223372036854775808; if (x) \x7b").errors.countP (·.span = ⟨4, 5⟩) ≤ 2 :=
  ⟨by decide +kernel,
    (parse_errors_in_order _ (by decide)).2.2 ⟨.symbol .rparen, ⟨4, 5⟩⟩ (by decide +kernel)
      (by decide)⟩

end Monkey
