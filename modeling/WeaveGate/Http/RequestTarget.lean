import WeaveGate.Http.UriParser

/-!
# Request targets

The forms in which a client may write what it asks for, and the URI that a server takes each for.
-/

namespace WeaveGate.Http

def isSchemeChar (c : Char) : Bool := c.isAlphanum || c ∈ "+-.~".toList

/-- Userinfo, host and port, with their delimiters. -/
def isAuthorityText (c : Char) : Bool := c.isAlphanum || c ∈ "!$%&'()*+,-.:;=@[]_~".toList

/-- An empty path stands for the root, in a URI that names only an origin. -/
def isRooted (path : Str) : Bool := path = [] || Text.startsWith path '/'

inductive RequestTarget where
  | origin (pq : PathAndQuery) (rooted : Text.startsWith pq.rawPath '/' = true)
  /-- As for a proxy. -/
  | absolute (scheme : Str) (authority : Authority) (pq : PathAndQuery) (scheme_legal : scheme.all isSchemeChar = true)
      (authority_legal : authority.all isAuthorityText = true) (rooted : isRooted pq.rawPath = true)
  | asterisk
  /-- As for a tunnel. -/
  | authority (authority : Authority) (nonempty : authority ≠ []) (legal : authority.all isAuthorityText = true)

namespace RequestTarget

def uri : RequestTarget → Uri
  | .origin pq _ => ⟨none, none, some pq⟩
  | .absolute scheme host pq _ _ _ => ⟨some scheme, some host, some pq⟩
  | .asterisk => ⟨none, none, some ⟨['*'], none, rfl, PathAndQuery.legal_none⟩⟩
  | .authority host _ _ => ⟨none, some host, none⟩

def isOrigin : RequestTarget → Bool
  | .origin _ _ => true
  | _ => false

/-! ## Characters of targets -/

theorem printable_of_class {p : Char → Bool} {marks s : Str} (hp : ∀ c, p c = (c.isAlphanum || decide (c ∈ marks)))
    (hmarks : marks.all HeaderValue.isPrintable = true) (h : s.all p = true) :
    s.all HeaderValue.isPrintable = true := by
  refine List.all_eq_true.mpr fun c hc => ?_
  have hchar := List.all_eq_true.mp h c hc
  rw [hp, Bool.or_eq_true, decide_eq_true_eq] at hchar
  rcases hchar with hchar | hchar
  · exact HeaderValue.isPrintable_of_isAlphanum hchar
  · exact List.all_eq_true.mp hmarks c hchar

theorem scheme_printable {scheme : Str} (h : scheme.all isSchemeChar = true) :
    scheme.all HeaderValue.isPrintable = true := printable_of_class (fun _ => rfl) (by decide) h

theorem authority_printable {host : Str} (h : host.all isAuthorityText = true) :
    host.all HeaderValue.isPrintable = true := printable_of_class (fun _ => rfl) (by decide) h

theorem pathAndQuery_printable (pq : PathAndQuery) :
    (pq.path ++ PathAndQuery.queryText pq.query).all HeaderValue.isPrintable = true := by
  have hpath : pq.path.all HeaderValue.isPrintable = true :=
    List.all_eq_true.mpr fun c hc => PathAndQuery.isPathChar_printable (PathAndQuery.isPathChar_of_mem_path c hc)
  rw [List.all_append, hpath, pq.queryText_printable]
  rfl

theorem uri_printable (target : RequestTarget) : target.uri.toStr.all HeaderValue.isPrintable = true := by
  cases target with
  | origin pq _ => exact pathAndQuery_printable pq
  | absolute scheme host pq hscheme hhost _ =>
      show ((scheme ++ "://".toList ++ host ++ pq.path) ++ PathAndQuery.queryText pq.query).all _ = true
      rw [List.append_assoc, List.all_append, pathAndQuery_printable, List.all_append, List.all_append,
        scheme_printable hscheme, authority_printable hhost]
      decide
  | asterisk => decide
  | authority host _ hhost =>
      show (host ++ [] ++ []).all _ = true
      rw [List.append_nil, List.append_nil, authority_printable hhost]

/-- The text of a target starts with a slash in origin form, else with a character that ends no authority. -/
theorem exists_uri_head (target : RequestTarget) : ∃ c rest, target.uri.toStr = c :: rest ∧
    c ≠ '?' ∧ c ≠ '#' ∧ (c = '/' ↔ target.isOrigin = true) := by
  cases target with
  | origin pq hrooted =>
      cases hraw : pq.rawPath with
      | nil => rw [hraw] at hrooted; cases hrooted
      | cons c rest =>
          have hc : c = '/' := by simpa [hraw, Text.startsWith] using hrooted
          have hpath : pq.path = c :: rest := by rw [PathAndQuery.path, hraw, if_neg (List.cons_ne_nil _ _)]
          refine ⟨c, rest ++ PathAndQuery.queryText pq.query, ?_, ?_, ?_, iff_of_true hc rfl⟩
          · show pq.path ++ _ = _
            rw [hpath]
            rfl
          · rw [hc]
            decide
          · rw [hc]
            decide
  | absolute scheme host pq hscheme _ _ =>
      cases scheme with
      | nil => exact ⟨':', _, rfl, by decide, by decide, iff_of_false (by decide) Bool.false_ne_true⟩
      | cons c scheme =>
          have hc : isSchemeChar c = true := (List.all_eq_true.mp hscheme) c List.mem_cons_self
          refine ⟨c, _, rfl, ?_, ?_, iff_of_false ?_ Bool.false_ne_true⟩
          all_goals
            rintro rfl
            exact absurd hc (by decide)
  | asterisk => exact ⟨'*', [], rfl, by decide, by decide, iff_of_false (by decide) Bool.false_ne_true⟩
  | authority host hne hhost =>
      cases host with
      | nil => exact absurd rfl hne
      | cons c host =>
          have hc : isAuthorityText c = true := (List.all_eq_true.mp hhost) c List.mem_cons_self
          refine ⟨c, _, rfl, ?_, ?_, iff_of_false ?_ Bool.false_ne_true⟩
          all_goals
            rintro rfl
            exact absurd hc (by decide)

end RequestTarget

end WeaveGate.Http
