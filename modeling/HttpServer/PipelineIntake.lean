/-
A pipeline of well-formed requests on its way through the parser.  Whatever
part of it has arrived, the requests completed so far are the first ones of
the pipeline, each of them has arrived completely, and when the parser waits
no other has.
-/
import HttpServer.RequestRoundTrip
import HttpServer.RequestStream

namespace HttpServer

open ByteText StreamMachine

section Reading

variable {limit : Nat} {source target : Progress × Bytes}

theorem Reads.intake (hreads : Reads limit source target) (requests : List HttpRequest) :
    Reaches intakeStep (⟨source.1, requests, false⟩, source.2)
      (⟨target.1, requests, false⟩, target.2) := by
  induction hreads with
  | refl => exact Relation.ReflTransGen.refl
  | tail _ hlast ih =>
      refine ih.trans (Reaches.single ?_)
      simp [intakeStep, hlast.1]

theorem Reads.admissible (hreads : Reads (maxHttpHeaderSize - 1) source target)
    (requests : List HttpRequest)
    (hadm : Admissible intakeStep LineFits (⟨target.1, requests, false⟩, target.2)) :
    Admissible intakeStep LineFits (⟨source.1, requests, false⟩, source.2) := by
  induction hreads using Relation.ReflTransGen.head_induction_on with
  | refl => exact hadm
  | @head source next hfirst _ ih =>
      have hstep : intakeStep ⟨source.1, requests, false⟩ source.2 =
          some (⟨next.1, requests, false⟩, next.2) := by
        simp [intakeStep, hfirst.1]
      refine Admissible.of_next ?_ hstep ih
      rintro line ⟨_, hstate, rfl⟩
      exact hfirst.2 hstate

end Reading

theorem intakeStep_complete {p : Progress} (hcomplete : p.parser.mState = .complete)
    (requests : List HttpRequest) (readBuffer : Bytes) :
    intakeStep ⟨p, requests, false⟩ readBuffer =
      some (⟨{}, requests ++ [p.request], false⟩, readBuffer) := by
  have hturn : turn p readBuffer = .ret .success p readBuffer := by
    simp only [turn, hcomplete]
  simp only [intakeStep, hturn, Bool.false_eq_true, ↓reduceIte]
  rfl

/-- Requests are only ever added, and an error is final. -/
theorem intakeStep_requests {s : Intake} {readBuffer : Bytes} {target : Intake × Bytes}
    (hstep : intakeStep s readBuffer = some target) :
    s.failed = false ∧ s.requests <+: target.1.requests := by
  simp only [intakeStep] at hstep
  split at hstep
  · contradiction
  · next hactive =>
      refine ⟨by simpa using hactive, ?_⟩
      split at hstep
      · obtain rfl := Option.some.inj hstep
        exact List.prefix_rfl
      · contradiction
      · obtain rfl := Option.some.inj hstep
        exact List.prefix_rfl
      · obtain rfl := Option.some.inj hstep
        exact List.prefix_append _ _

theorem reaches_requests {source target : Intake × Bytes}
    (hreach : Reaches intakeStep source target) :
    source.1.requests <+: target.1.requests ∧
      (target.1.failed = false → source.1.failed = false) := by
  induction hreach with
  | refl => exact ⟨List.prefix_rfl, id⟩
  | tail _ hlast ih =>
      obtain ⟨hactive, hgrows⟩ := intakeStep_requests hlast
      exact ⟨ih.1.trans hgrows, fun _ => ih.2 hactive⟩

namespace WireRequest

/-- One request of the pipeline: read, handed out, parser reset. -/
theorem intake {r : WireRequest} (hwf : r.WellFormed) (requests : List HttpRequest)
    (rest : Bytes) :
    ∃ last : Progress, last.request = r.request ∧
      Reaches intakeStep (⟨{}, requests, false⟩, r.text ++ rest)
        (⟨last, requests, false⟩, rest) ∧
      intakeStep ⟨last, requests, false⟩ rest =
        some (⟨{}, requests ++ [r.request], false⟩, rest) := by
  obtain ⟨parser, hcomplete, hreads⟩ := reads_text hwf rest
  exact ⟨⟨parser, r.request⟩, rfl, hreads.intake requests,
    intakeStep_complete hcomplete requests rest⟩

theorem admissible {r : WireRequest} (hwf : r.WellFormed) (requests : List HttpRequest)
    {rest : Bytes}
    (hadm : Admissible intakeStep LineFits
      (⟨{}, requests ++ [r.request], false⟩, rest)) :
    Admissible intakeStep LineFits (⟨{}, requests, false⟩, r.text ++ rest) := by
  obtain ⟨parser, hcomplete, hreads⟩ := reads_text hwf rest
  apply hreads.admissible requests
  refine Admissible.of_next ?_ (intakeStep_complete hcomplete requests rest) hadm
  rintro line ⟨_, hstate, _⟩
  simp [hcomplete, lineAction?] at hstate

end WireRequest

/-- The bytes of a pipeline. -/
def streamOf (pipeline : List WireRequest) : Bytes := pipeline.flatMap WireRequest.text

def requestsOf (pipeline : List WireRequest) : List HttpRequest :=
  pipeline.map WireRequest.request

theorem streamOf_append (left right : List WireRequest) :
    streamOf (left ++ right) = streamOf left ++ streamOf right := by
  simp [streamOf]

section Pipeline

variable {pipeline : List WireRequest}

theorem reaches_streamOf (hwf : ∀ r ∈ pipeline, r.WellFormed) :
    ∀ (requests : List HttpRequest) (rest : Bytes),
      Reaches intakeStep (⟨{}, requests, false⟩, streamOf pipeline ++ rest)
        (⟨{}, requests ++ requestsOf pipeline, false⟩, rest) := by
  induction pipeline with
  | nil =>
      intro requests rest
      simp only [streamOf, requestsOf, List.flatMap_nil, List.map_nil, List.nil_append,
        List.append_nil]
      exact Relation.ReflTransGen.refl
  | cons r pipeline ih =>
      intro requests rest
      obtain ⟨last, _, hread, hstep⟩ := WireRequest.intake (hwf r List.mem_cons_self)
        requests (streamOf pipeline ++ rest)
      have hlater := ih (fun other hother => hwf other (List.mem_cons_of_mem _ hother))
        (requests ++ [r.request]) rest
      have hsplit : streamOf (r :: pipeline) ++ rest =
          r.text ++ (streamOf pipeline ++ rest) := by simp [streamOf]
      rw [hsplit]
      have hall := (hread.trans (Reaches.single hstep)).trans hlater
      simpa [requestsOf, Reaches] using hall

theorem lineFits_start (requests : List HttpRequest) :
    Admissible intakeStep LineFits (⟨{}, requests, false⟩, []) := by
  intro target hreach
  have hwait : intakeStep ⟨{}, requests, false⟩ [] = none :=
    intakeStep_of_waiting waiting_start _ _
  rcases Relation.ReflTransGen.cases_head hreach with rfl | ⟨other, hother, _⟩
  · rintro line ⟨_, _, rfl⟩
    exact Nat.zero_le _
  · rw [Next, hwait] at hother
    contradiction

/-- No line of the pipeline is longer than the parser accepts in any cut. -/
theorem admissible_streamOf (hwf : ∀ r ∈ pipeline, r.WellFormed) :
    ∀ requests : List HttpRequest,
      Admissible intakeStep LineFits (⟨{}, requests, false⟩, streamOf pipeline) := by
  induction pipeline with
  | nil => exact lineFits_start
  | cons r pipeline ih =>
      intro requests
      have hsplit : streamOf (r :: pipeline) = r.text ++ streamOf pipeline := by
        simp [streamOf]
      rw [hsplit]
      apply WireRequest.admissible (hwf r List.mem_cons_self)
      exact ih (fun other hother => hwf other (List.mem_cons_of_mem _ hother)) _

theorem settles_streamOf (hwf : ∀ r ∈ pipeline, r.WellFormed) :
    Settles intakeStep ({}, streamOf pipeline) (⟨{}, requestsOf pipeline, false⟩, []) := by
  constructor
  · have hreach := reaches_streamOf hwf [] []
    simpa using hreach
  · exact intakeStep_of_waiting waiting_start _ _

/-- What is reached on a part of the pipeline is on the way of the whole. -/
theorem reaches_whole (hwf : ∀ r ∈ pipeline, r.WellFormed) {received more : Bytes}
    (hcut : received ++ more = streamOf pipeline) {config : Intake × Bytes}
    (hreach : Reaches intakeStep ({}, received) config) :
    Reaches intakeStep ({}, streamOf pipeline) (config.1, config.2 ++ more) := by
  have hadm := admissible_streamOf hwf []
  rw [← hcut] at hadm ⊢
  exact hreach.append intakeStep_stable more hadm

/-- Nor in any part of it that has arrived. -/
theorem admissible_received (hwf : ∀ r ∈ pipeline, r.WellFormed) {received : Bytes}
    (hreceived : received <+: streamOf pipeline) :
    Admissible intakeStep LineFits ({}, received) := by
  obtain ⟨more, hcut⟩ := hreceived
  rintro config hreach line ⟨hactive, hstate, rfl⟩
  have hwhole := admissible_streamOf hwf [] _ (reaches_whole hwf hcut hreach)
  exact (length_frontLine_append_le config.2 more).trans
    (hwhole _ ⟨hactive, hstate, rfl⟩)

/-- The parser meets no error and completes the pipeline's requests in order. -/
theorem intake_in_order (hwf : ∀ r ∈ pipeline, r.WellFormed) {received : Bytes}
    (hreceived : received <+: streamOf pipeline) {config : Intake × Bytes}
    (hreach : Reaches intakeStep ({}, received) config) :
    config.1.failed = false ∧ config.1.requests <+: requestsOf pipeline := by
  obtain ⟨more, hcut⟩ := hreceived
  have hsettles := (settles_streamOf hwf).of_reaches (reaches_whole hwf hcut hreach)
  obtain ⟨hgrows, hactive⟩ := reaches_requests hsettles.1
  exact ⟨hactive rfl, hgrows⟩

/-- Every completed request has arrived completely. -/
theorem intake_arrived (hwf : ∀ r ∈ pipeline, r.WellFormed) {received : Bytes}
    (hreceived : received <+: streamOf pipeline) {config : Intake × Bytes}
    (hreach : Reaches intakeStep ({}, received) config) :
    streamOf (pipeline.take config.1.requests.length) <+: received := by
  obtain ⟨_, hgrows⟩ := intake_in_order hwf hreceived hreach
  obtain ⟨more, hcut⟩ := hreceived
  have hwhole := reaches_whole hwf hcut hreach
  cases hcount : config.1.requests.length with
  | zero => exact List.nil_prefix
  | succ k =>
      have hlong : k < pipeline.length := by
        have hle := hgrows.length_le
        simp only [requestsOf, List.length_map] at hle
        omega
      obtain ⟨r, hr⟩ : ∃ r, pipeline.drop k = r :: pipeline.drop (k + 1) :=
        ⟨_, List.drop_eq_getElem_cons hlong⟩
      have hmem : r ∈ pipeline := List.mem_of_mem_drop (hr ▸ List.mem_cons_self)
      have htake : pipeline.take (k + 1) = pipeline.take k ++ [r] := by
        rw [List.take_add, hr]
        rfl
      have hsplit : streamOf pipeline = streamOf (pipeline.take k) ++
          (r.text ++ streamOf (pipeline.drop (k + 1))) := by
        conv_lhs => rw [← List.take_append_drop k pipeline, hr, streamOf_append]
        simp [streamOf]
      -- the moment before the request `r` is handed out
      obtain ⟨last, _, hread, _⟩ := WireRequest.intake (hwf r hmem)
        (requestsOf (pipeline.take k)) (streamOf (pipeline.drop (k + 1)))
      have hbefore := (reaches_streamOf
        (fun other hother => hwf other (List.mem_of_mem_take hother)) []
        (r.text ++ streamOf (pipeline.drop (k + 1)))).trans hread
      rw [← hsplit] at hbefore
      have hlength : (config.2 ++ more).length ≤
          (streamOf (pipeline.drop (k + 1))).length := by
        rcases Reaches.total hbefore hwhole with hlater | hearlier
        · exact reaches_length hlater
        · have hfew := (reaches_requests hearlier).1.length_le
          simp only [requestsOf, List.length_map, List.length_take] at hfew
          omega
      have hshorter : (streamOf (pipeline.take (k + 1))).length ≤ received.length := by
        have hcutLength := congrArg List.length hcut
        have hsplitLength := congrArg List.length hsplit
        rw [htake, streamOf_append]
        simp only [streamOf, List.flatMap_singleton, List.length_append] at *
        omega
      have hbegin : streamOf (pipeline.take (k + 1)) <+: streamOf pipeline := by
        refine ⟨streamOf (pipeline.drop (k + 1)), ?_⟩
        rw [← streamOf_append, List.take_append_drop]
      exact List.prefix_of_prefix_length_le hbegin ⟨more, hcut⟩ hshorter

/-- When the parser waits, no further request has arrived completely. -/
theorem intake_waiting (hwf : ∀ r ∈ pipeline, r.WellFormed) {received : Bytes}
    {config : Intake × Bytes} (hreach : Reaches intakeStep ({}, received) config)
    (hwait : intakeStep config.1 config.2 = none) {j : Nat} (hj : j ≤ pipeline.length)
    (harrived : streamOf (pipeline.take j) <+: received) :
    j ≤ config.1.requests.length := by
  obtain ⟨rest, rfl⟩ := harrived
  have hread := @reaches_streamOf (pipeline.take j)
    (fun r hr => hwf r (List.mem_of_mem_take hr)) [] rest
  have hlater := Settles.of_reaches hread ⟨hreach, hwait⟩
  have hmany := (reaches_requests hlater.1).1.length_le
  simpa [requestsOf, hj] using hmany

end Pipeline

end HttpServer
