import HubRules.Helper.Scope
import HubRules.Proofs.Routing.RuleTarget
import HubRules.Proofs.Url.Upstream

/-!
# Proxy rules in both engines

nginx is given the path and the origin of a target, httpd the target itself. Both lead to the
same host, port number and path (`proxyRule_same_upstream`). The query of a target is not part
of nginx's rule.
-/

namespace HubRules

open Reference Text

namespace RequestRule

/-- The path and the server of an nginx rule of a pattern that proxies. -/
def proxyTarget? (pattern rule : Text) : Option (Text × Text) := do
  let rest ← dropStart? ("rewrite ".toList ++ pattern ++ [' ']) rule
  let (path, behind) ← cut ' ' rest
  let ending ← dropStart? "break;\n    proxy_pass ".toList behind
  let server ← dropEnding? [';'] ending
  return (path, server)

theorem proxyTarget?_nginx {pattern : Text} {url : Url} (h : ' ' ∉ url.pathText) :
    proxyTarget? pattern (nginx pattern (.proxy url)) = some (url.pathText, url.origin) := by
  have hrule : nginx pattern (.proxy url) = ("rewrite ".toList ++ pattern ++ [' '])
      ++ (url.pathText ++ ' ' :: ("break;\n    proxy_pass ".toList ++ (url.origin ++ [';']))) := by
    unfold nginx
    simp
  unfold proxyTarget?
  rw [hrule, dropStart?_append]
  simp only [Option.bind_eq_bind, Option.bind_some, cut_eq_some_iff.2 ⟨rfl, h⟩, dropStart?_append,
    dropEnding?_append, Option.pure_def]

end RequestRule

section

variable {config : Configuration} {text pattern target : Text} {rest : List Text} {url : Url}

theorem proxyRule_nginx (hargs : RequestRule.arguments 3 text = pattern :: target :: rest)
    (hurl : Url.parse target = .ok url) :
    (HelperScope.mk config .nginx).proxyRule text = .ok (RequestRule.nginx pattern (.proxy url)) := by
  unfold HelperScope.proxyRule
  rw [hargs]
  simp only [hurl]
  rfl

theorem proxyRule_httpd (hargs : RequestRule.arguments 3 text = pattern :: target :: rest) :
    (HelperScope.mk config .httpd).proxyRule text
      = .ok (RequestRule.httpd pattern target
          (RequestRule.readFlags (rest.headD []) ++ [['P']])) := by
  unfold HelperScope.proxyRule
  rw [hargs]

theorem blank_not_mem_pathText (h : url.IsNormal) : ' ' ∉ url.pathText := by
  obtain ⟨segments, hsegments, hpath⟩ := h.path
  intro hmem
  rw [Url.pathText_eq hsegments] at hmem
  exact absurd (Url.lt_of_mem_segments hpath.segments _ hmem) (by decide)

end

/-- Both engines proxy to the same upstream: the URL of the path and the server that nginx is
given has the scheme, host, port number and path of the target that httpd is given. It has no
query, whatever the query of the target is. -/
theorem proxyRule_same_upstream (config : Configuration) (text pattern target : Text)
    (rest : List Text) (url : Url)
    (hargs : RequestRule.arguments 3 text = pattern :: target :: rest) (hpercent : '%' ∉ target)
    (hurl : Url.parse target = .ok url) (hscheme : Url.IsWebScheme url.scheme) :
    ∃ rn rh path server found, (HelperScope.mk config .nginx).proxyRule text = .ok rn
      ∧ (HelperScope.mk config .httpd).proxyRule text = .ok rh
      ∧ RequestRule.proxyTarget? pattern rn = some (path, server)
      ∧ RequestRule.httpdTarget? pattern rh = some found
      ∧ Url.parse (unnumber found) = .ok url
      ∧ ∃ reached, Url.parse (server ++ path) = .ok reached ∧ reached.scheme = url.scheme
        ∧ reached.host = url.host ∧ reached.port = url.port ∧ reached.path = url.path
        ∧ reached.query = none := by
  have hnormal := Url.parse_isNormal hscheme hurl
  have hflags := RequestRule.blank_not_mem_flags (RequestRule.blank_not_mem_tag hargs)
    (show ' ' ∉ ['P'] by decide)
  refine ⟨_, _, _, _, _, proxyRule_nginx hargs hurl, proxyRule_httpd hargs,
    RequestRule.proxyTarget?_nginx (blank_not_mem_pathText hnormal),
    RequestRule.httpdTarget?_httpd hflags, ?_, url.upstream, Url.parse_origin_path hnormal,
    rfl, rfl, rfl, rfl, rfl⟩
  rw [unnumber_renumber (isGroupFree_of_not_mem hpercent), hurl]

/-- A target with a user, a port number, a directory to leave and a query. -/
def queryUrl : Url :=
  ⟨"http".toList, "me".toList, [], some (.domain ['h']), some 81, .segments [['b']],
    some "c=1".toList, none⟩

theorem proxyRule_same_upstream_query :
    ∃ rn rh path server found, (HelperScope.mk ⟨[]⟩ .nginx).proxyRule
        "^/x$ http://me@h:81/a/../b?c=1".toList = .ok rn
      ∧ (HelperScope.mk ⟨[]⟩ .httpd).proxyRule "^/x$ http://me@h:81/a/../b?c=1".toList = .ok rh
      ∧ RequestRule.proxyTarget? "^/x$".toList rn = some (path, server)
      ∧ RequestRule.httpdTarget? "^/x$".toList rh = some found
      ∧ Url.parse (unnumber found) = .ok queryUrl
      ∧ ∃ reached, Url.parse (server ++ path) = .ok reached ∧ reached.scheme = queryUrl.scheme
        ∧ reached.host = queryUrl.host ∧ reached.port = queryUrl.port
        ∧ reached.path = queryUrl.path ∧ reached.query = none :=
  proxyRule_same_upstream ⟨[]⟩ "^/x$ http://me@h:81/a/../b?c=1".toList "^/x$".toList
    "http://me@h:81/a/../b?c=1".toList [] queryUrl (by decide) (by decide) rfl (.inl rfl)

/-- The query of a target is in httpd's rule only. -/
theorem proxyRule_drops_query :
    ∃ rn rh path server found, (HelperScope.mk ⟨[]⟩ .nginx).proxyRule
        "^/x$ http://h/a?b=1".toList = .ok rn
      ∧ (HelperScope.mk ⟨[]⟩ .httpd).proxyRule "^/x$ http://h/a?b=1".toList = .ok rh
      ∧ RequestRule.proxyTarget? "^/x$".toList rn = some (path, server)
      ∧ RequestRule.httpdTarget? "^/x$".toList rh = some found
      ∧ ∃ u v, Url.parse (server ++ path) = .ok u ∧ Url.parse (unnumber found) = .ok v
        ∧ u.query = none ∧ v.query = some "b=1".toList :=
  ⟨_, _, "/a".toList, "http://h".toList, "http://h/a?b=1".toList, rfl, rfl, by decide, by decide,
    _, _, rfl, rfl, rfl, rfl⟩

end HubRules
