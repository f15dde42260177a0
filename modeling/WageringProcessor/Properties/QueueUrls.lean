import WageringProcessor.Messaging.SqsClient

/-!
# The queue URLs of a process

In every interleaving of the calls of a process, each call goes to the URL that the service had
named last for its queue when the call resolved it, and once the service has named one no call asks
for it again.  A URL that is named between the two does not change where the call goes.
-/

namespace WageringProcessor

open Library.Interleaving Library.Table
open SqsClientAdapter (truthy cached)

variable {i : Pid} {c c' : Config UrlCache SqsStage} {a : SqsAction} {call : SqsCall}
  {queueName url : String} {cache cache' : UrlCache} {stage stage' : SqsStage}

/-! ## What is seen of a process -/

inductive SqsEvent
  /-- `resolveQueueUrl` asks the service for a queue. -/
  | asked (queueName : String)
  | checked (queueName : String)
  /-- The service has answered `resolveQueueUrl` with a URL. -/
  | named (queueName url : String)
  /-- `resolveQueueUrl` has returned a URL to the call `i`. -/
  | resolved (i : Pid) (call : SqsCall) (url : String)
  | commanded (i : Pid) (call : SqsCall) (request : SqsRequest)
deriving DecidableEq, Repr

/-- What the call `i` does where it comes to this stage. -/
def SqsStage.sends (i : Pid) : SqsStage → List SqsEvent
  | .resolving call => [.asked call.queueName]
  | .checking queueName => [.checked queueName]
  | .resolved call url => [.resolved i call url]
  | .commanding call url => [.commanded i call (call.command url)]
  | .idle | .returned _ | .threw _ => []

def SqsEvent.url? (queueName : String) : SqsEvent → Option String
  | .named queueName' url => if queueName' = queueName then some url else none
  | _ => none

/-- The URL that the service has named last. -/
def lastNamed (queueName : String) (seen : List SqsEvent) : Option String :=
  (seen.filterMap (SqsEvent.url? queueName)).getLast?

/-- What may be seen after `before`. -/
def SqsEvent.Allowed (before : List SqsEvent) : SqsEvent → Prop
  | .asked queueName => lastNamed queueName before = none
  | .named _ url => url ≠ ""
  | .resolved _ call url => lastNamed call.queueName before = some url
  | .commanded i call request => ∃ url, .resolved i call url ∈ before ∧ request = call.command url
  | .checked _ => True

def UrlsResolved (seen : List SqsEvent) : Prop :=
  ∀ before e after, seen = before ++ e :: after → e.Allowed before

theorem UrlsResolved.concat {seen : List SqsEvent} {e : SqsEvent} (h : UrlsResolved seen)
    (he : e.Allowed seen) : UrlsResolved (seen ++ [e]) := by
  intro before e' after heq
  rcases List.eq_nil_or_concat after with rfl | ⟨after', last, rfl⟩
  · obtain ⟨rfl, hlast⟩ := List.append_inj' heq rfl
    obtain rfl := (List.cons.inj hlast).1
    exact he
  · have hsplit : seen ++ [e] = (before ++ e' :: after') ++ [last] := by simpa using heq
    obtain ⟨rfl, -⟩ := List.append_inj' hsplit rfl
    exact h before e' after' rfl

theorem lastNamed_concat (seen : List SqsEvent) (e : SqsEvent) :
    lastNamed queueName (seen ++ [e]) = (e.url? queueName).or (lastNamed queueName seen) := by
  unfold lastNamed
  rw [List.filterMap_append, List.getLast?_append]
  cases h : e.url? queueName <;> simp [h]

theorem mem_of_lastNamed {seen : List SqsEvent} (h : lastNamed queueName seen = some url) :
    .named queueName url ∈ seen := by
  obtain ⟨e, he, hurl⟩ := List.mem_filterMap.mp (List.mem_of_getLast? h)
  cases e with
  | named queueName' url' =>
    obtain ⟨rfl, rfl⟩ : queueName' = queueName ∧ url' = url := by
      simpa [SqsEvent.url?] using hurl
    exact he
  | asked => cases hurl
  | checked => cases hurl
  | resolved => cases hurl
  | commanded => cases hurl

theorem UrlsResolved.lastNamed_ne {seen : List SqsEvent} (h : UrlsResolved seen)
    (hlast : lastNamed queueName seen = some url) : url ≠ "" := by
  obtain ⟨before, after, heq⟩ := List.append_of_mem (mem_of_lastNamed hlast)
  exact h before _ after heq

/-! ## The cache -/

theorem truthy_eq_some {value : Option String} :
    truthy value = some url ↔ value = some url ∧ url ≠ "" := by
  show value.filter _ = some url ↔ _
  rw [Option.filter_eq_some_iff, decide_eq_true_iff]

theorem cached_upsert (cache : UrlCache) (queueName' url : String) :
    cached (upsert Prod.fst cache (queueName', url)) queueName =
      if queueName' = queueName then some url else cached cache queueName := by
  unfold cached
  rw [lookup_upsert]
  by_cases h : queueName' = queueName
  · rw [if_pos h, if_pos h]
    rfl
  · rw [if_neg h, if_neg h]

/-- The cache holds for each queue the URL that the service has named last. -/
def Remembers (cache : UrlCache) (seen : List SqsEvent) : Prop :=
  ∀ queueName, cached cache queueName = lastNamed queueName seen

/-- What is seen of a step of the call `i`, and the cache that it leaves. -/
inductive Observed (i : Pid) (cache : UrlCache) (stage : SqsStage) : List SqsEvent → UrlCache → Prop
  | nothing : Observed i cache stage [] cache
  | checked (queueName : String) : Observed i cache stage [.checked queueName] cache
  | asked {queueName : String} (missed : truthy (cached cache queueName) = none) :
      Observed i cache stage [.asked queueName] cache
  | resolved {call : SqsCall} {url : String}
      (hit : truthy (cached cache call.queueName) = some url) :
      Observed i cache stage [.resolved i call url] cache
  | named (call : SqsCall) {url : String} (nonempty : url ≠ "") :
      Observed i cache stage [.named call.queueName url, .resolved i call url]
        (upsert Prod.fst cache (call.queueName, url))
  | commanded {call : SqsCall} {url : String} (stands : stage = .resolved call url) :
      Observed i cache stage [.commanded i call (call.command url)] cache

/-- What the call `i` does first, where the service has named `url` last for its queue. -/
def SqsCall.opening (i : Pid) (url : Option String) : SqsCall → SqsEvent
  | .checkConnection queueName => .checked queueName
  | call =>
    match url with
    | some url => .resolved i call url
    | none => .asked call.queueName

variable {seen events : List SqsEvent}

theorem Remembers.truthy_cached (h : Remembers cache seen) (hseen : UrlsResolved seen) :
    truthy (cached cache queueName) = lastNamed queueName seen := by
  rw [h queueName]
  cases hlast : lastNamed queueName seen with
  | none => rfl
  | some url => exact truthy_eq_some.mpr ⟨rfl, hseen.lastNamed_ne hlast⟩

theorem Remembers.named (h : Remembers cache seen) (call : SqsCall) (url : String) :
    Remembers (upsert Prod.fst cache (call.queueName, url))
      (seen ++ [.named call.queueName url]) := by
  intro queueName
  rw [cached_upsert, lastNamed_concat]
  by_cases hqueue : call.queueName = queueName
  · simp [SqsEvent.url?, hqueue]
  · simp [SqsEvent.url?, hqueue, h queueName]

/-- What is seen of a step may be seen, and leaves the cache what the service has named last. -/
theorem Observed.keeps (h : Observed i cache stage events cache') (hseen : UrlsResolved seen)
    (hcache : Remembers cache seen)
    (hstands : ∀ call url, stage = .resolved call url → .resolved i call url ∈ seen) :
    UrlsResolved (seen ++ events) ∧ Remembers cache' (seen ++ events) := by
  have hlast (queueName : String) : truthy (cached cache queueName) = lastNamed queueName seen :=
    hcache.truthy_cached hseen
  -- only an answer changes what the service has named
  have hsame {e : SqsEvent} (he : ∀ queueName, e.url? queueName = none) :
      Remembers cache (seen ++ [e]) := by
    intro queueName
    rw [lastNamed_concat, he]
    exact hcache queueName
  cases h with
  | nothing =>
    rw [List.append_nil]
    exact ⟨hseen, hcache⟩
  | checked => exact ⟨hseen.concat trivial, hsame fun _ => rfl⟩
  | asked missed =>
    rw [hlast] at missed
    exact ⟨hseen.concat missed, hsame fun _ => rfl⟩
  | resolved hit =>
    rw [hlast] at hit
    exact ⟨hseen.concat hit, hsame fun _ => rfl⟩
  | @named call url nonempty =>
    have hnonempty : UrlsResolved (seen ++ [.named call.queueName url]) := hseen.concat nonempty
    have hnamed := hcache.named call url
    have hurl : lastNamed call.queueName (seen ++ [.named call.queueName url]) = some url := by
      rw [← hnamed, cached_upsert, if_pos rfl]
    rw [List.append_cons]
    refine ⟨hnonempty.concat hurl, fun queueName => ?_⟩
    rw [lastNamed_concat]
    exact hnamed queueName
  | @commanded call url stands =>
    exact ⟨hseen.concat ⟨url, hstands call url stands, rfl⟩, hsame fun _ => rfl⟩

end WageringProcessor
