import TinyNetwork.HttpWire

/-! The demonstration server: three pages and a 404. None of them takes back the close
that HttpServer::onRequest asks for, so a connection carries one answer, and the client
can tell where its header section and its body are. -/
namespace TinyNetwork.HttpDemo
open Runs PeerLink HttpWire ResponseFraming

def favicon : Bytes :=
  [137, 80, 78, 71, 13, 10, 26, 10, 0, 0, 0, 13, 73, 72, 68, 82, 0, 0, 0, 16, 0, 0, 0, 16, 8, 6, 0, 0, 0, 31,
    243, 255, 97, 0, 0, 0, 25, 116, 69, 88, 116, 83, 111, 102, 116, 119, 97, 114, 101, 0, 65, 100, 111, 98,
    101, 32, 73, 109, 97, 103, 101, 82, 101, 97, 100, 121, 113, 201, 101, 60, 0, 0, 1, 205, 73, 68, 65, 84,
    120, 218, 148, 147, 57, 72, 3, 65, 20, 134, 255, 93, 98, 167, 4, 82, 196, 109, 34, 30, 160, 70, 36, 8, 22,
    22, 118, 10, 54, 186, 74, 154, 128, 8, 65, 180, 113, 133, 88, 137, 71, 176, 73, 169, 81, 36, 205, 166, 8,
    164, 72, 99, 145, 66, 11, 175, 86, 193, 70, 180, 21, 207, 34, 88, 152, 11, 84, 72, 138, 100, 147, 141,
    251, 70, 103, 201, 26, 20, 125, 240, 102, 118, 102, 223, 124, 239, 231, 103, 70, 168, 213, 106, 72, 36,
    18, 42, 0, 5, 191, 71, 212, 239, 247, 47, 54, 236, 18, 32, 30, 143, 215, 170, 213, 234, 175, 73, 53, 70,
    170, 84, 95, 159, 34, 65, 42, 149, 10, 131, 229, 114, 57, 100, 179, 89, 150, 153, 76, 6, 233, 116, 154,
    37, 133, 44, 203, 84, 167, 196, 98, 49, 181, 94, 0, 3, 104, 154, 198, 22, 130, 32, 88, 82, 20, 69, 54, 83,
    148, 203, 101, 120, 189, 94, 170, 85, 84, 35, 76, 192, 224, 226, 193, 143, 0, 158, 188, 9, 65, 124, 62,
    31, 131, 68, 34, 17, 213, 84, 64, 63, 56, 128, 119, 229, 51, 7, 184, 92, 46, 72, 146, 4, 135, 195, 129,
    64, 32, 64, 103, 152, 233, 54, 26, 166, 103, 21, 4, 227, 215, 200, 189, 21, 225, 105, 183, 67, 171, 234,
    120, 47, 106, 88, 146, 187, 24, 32, 159, 207, 51, 195, 184, 233, 78, 167, 211, 108, 74, 0, 105, 54, 124,
    142, 225, 254, 86, 132, 231, 60, 159, 114, 43, 58, 66, 123, 55, 102, 119, 174, 142, 14, 243, 189, 82, 169,
    100, 2, 66, 175, 133, 50, 102, 70, 186, 12, 217, 159, 29, 154, 108, 34, 230, 199, 58, 44, 128, 239, 193,
    21, 144, 7, 147, 162, 40, 160, 83, 106, 177, 184, 223, 41, 53, 67, 14, 63, 88, 252, 152, 218, 121, 106,
    80, 64, 0, 135, 174, 27, 23, 66, 180, 58, 63, 190, 121, 199, 10, 38, 182, 238, 217, 154, 96, 20, 147, 219,
    143, 13, 10, 46, 233, 35, 149, 41, 88, 0, 39, 235, 110, 86, 112, 188, 214, 203, 214, 71, 171, 61, 108,
    125, 184, 210, 221, 160, 96, 131, 186, 239, 95, 164, 234, 204, 2, 78, 174, 94, 112, 26, 236, 179, 64, 57,
    172, 254, 242, 145, 137, 103, 145, 133, 33, 168, 135, 183, 88, 126, 126, 133, 187, 205, 78, 78, 98, 116,
    64, 250, 147, 137, 236, 30, 236, 134, 2, 72, 38, 147, 208, 117, 29, 127, 9, 50, 149, 191, 31, 219, 215,
    99, 138, 26, 247, 92, 193, 255, 34, 74, 195, 135, 0, 3, 0, 75, 187, 248, 214, 42, 118, 152, 73, 0, 0, 0,
    0, 73, 69, 78, 68, 174, 66, 96, 130]

def addHeader (r : HttpResponse) (key value : Bytes) : HttpResponse :=
  { r with headers := r.headers.filter (fun header => header.1 ≠ key) ++ [(key, value)] }

def setContentType (r : HttpResponse) (contentType : Bytes) : HttpResponse :=
  addHeader r (ascii "Content-Type") contentType

/- `now` is what Timestamp::now().toFormattedString() gives at the request. -/
def page (now : HttpRequest → Bytes) (req : HttpRequest) (resp : HttpResponse) : HttpResponse :=
  if req.path = ascii "/" then
    let resp := { resp with statusCode := .k200Ok, statusMessage := ascii "OK" }
    let resp := addHeader (setContentType resp (ascii "text/html")) (ascii "Server") (ascii "Muduo")
    { resp with
      body := ascii "<html><head><title>This is title</title></head><body><h1>Hello</h1>Now is " ++ now req ++
        ascii "</body></html>" }
  else if req.path = ascii "/favicon.ico" then
    let resp := { resp with statusCode := .k200Ok, statusMessage := ascii "OK" }
    { setContentType resp (ascii "image/png") with body := favicon }
  else if req.path = ascii "/hello" then
    let resp := { resp with statusCode := .k200Ok, statusMessage := ascii "OK" }
    let resp := addHeader (setContentType resp (ascii "text/plain")) (ascii "Server") (ascii "Muduo")
    { resp with body := ascii "hello, world!\n" }
  else { resp with statusCode := .k404NotFound, statusMessage := ascii "Not Found", closeConnection := true }

/- The hash map iterates over its entries in an order of its own. -/
def onRequest (iterate : List (Bytes × Bytes) → List (Bytes × Bytes)) (now : HttpRequest → Bytes) : HttpCallback :=
  fun req resp => { page now req resp with headers := iterate (page now req resp).headers }

theorem pageCloses (now : HttpRequest → Bytes) (req : HttpRequest) :
    (page now req { closeConnection := true }).closeConnection = true := by
  unfold page
  split_ifs <;> rfl

def Tidy (headers : List (Bytes × Bytes)) : Prop := ∀ header ∈ headers, Plain header.1 ∧ Plain header.2

theorem addHeaderTidy {r : HttpResponse} {key value : Bytes} (tidy : Tidy r.headers) (name : Plain key)
    (text : Plain value) : Tidy (addHeader r key value).headers := by
  intro header member
  rcases List.mem_append.mp member with old | new
  · exact tidy header (List.mem_filter.mp old).1
  · rw [List.mem_singleton.mp new]
    exact ⟨name, text⟩

theorem contentTypeTidy {r : HttpResponse} {contentType : Bytes} (tidy : Tidy r.headers) (text : Plain contentType) :
    Tidy (setContentType r contentType).headers :=
  addHeaderTidy tidy ⟨by decide, by decide⟩ text

theorem serverTidy {r : HttpResponse} (tidy : Tidy r.headers) :
    Tidy (addHeader r (ascii "Server") (ascii "Muduo")).headers :=
  addHeaderTidy tidy ⟨by decide, by decide⟩ ⟨by decide, by decide⟩

theorem noHeaders : Tidy [] := fun _ member => absurd member List.not_mem_nil

/- toFormattedString writes into 64 bytes. -/
theorem pageClean {now : HttpRequest → Bytes} (short : ∀ req, (now req).length < 64) (req : HttpRequest) :
    Clean (page now req { closeConnection := true }) := by
  have ok : Plain (ascii "OK") := ⟨by decide, by decide⟩
  unfold page
  split_ifs
  · refine ⟨ok, serverTidy (contentTypeTidy noHeaders ⟨by decide, by decide⟩), ?_⟩
    have front : (ascii "<html><head><title>This is title</title></head><body><h1>Hello</h1>Now is ").length < 100 := by
      decide
    have back : (ascii "</body></html>").length < 100 := by decide
    have text := short req
    simp only [List.length_append]
    omega
  · exact ⟨ok, contentTypeTidy noHeaders ⟨by decide, by decide⟩, by decide +kernel⟩
  · exact ⟨ok, serverTidy (contentTypeTidy noHeaders ⟨by decide, by decide⟩), by decide⟩
  · exact ⟨⟨by decide, by decide⟩, noHeaders, by decide⟩

variable {iterate : List (Bytes × Bytes) → List (Bytes × Bytes)} {now : HttpRequest → Bytes}

theorem requestClean (order : ∀ headers, (iterate headers).Perm headers) (short : ∀ req, (now req).length < 64)
    (req : HttpRequest) : Clean (onRequest iterate now req { closeConnection := true }) := by
  obtain ⟨message, headers, body⟩ := pageClean short req
  exact ⟨message, fun header member => headers header ((order _).mem_iff.mp member), body⟩

inductive Answered (iterate : List (Bytes × Bytes) → List (Bytes × Bytes)) (now : HttpRequest → Bytes) (sent block : Bytes) :
    Prop where
  | refused (same : block = HttpServer.badRequest)
  | answered {t bytes d ok last} (inside : bytes <:+: sent) (parses : HttpTrace.Parses t {} false bytes d ok last)
      (all : d.gotAll = true) (framed : Framed (onRequest iterate now d.request { closeConnection := true }) block)

theorem responseAnswered (order : ∀ headers, (iterate headers).Perm headers) (short : ∀ req, (now req).length < 64)
    {sent block : Bytes} {close : Bool} (response : Response (onRequest iterate now) sent close block) :
    close = true ∧ Answered iterate now sent block := by
  cases response with
  | refusal inside parses => exact ⟨rfl, .refused rfl⟩
  | response inside parses all =>
    exact ⟨pageCloses now _, .answered inside parses all (framedPieces (requestClean order short _))⟩

theorem demoAnswersOnce (order : ∀ headers, (iterate headers).Perm headers) (short : ∀ req, (now req).length < 64)
    {fd : Nat} {writeComplete highWater : Bool} {mark : Nat} {actions : List (Action Answer)} {w : Link}
    (ok : run (step (onMessage (onRequest iterate now))) (start fd writeComplete highWater mark) actions = some w)
    (intact : Intact w.life) :
    taken w.life = [] ∧ ¬ Fin w.life ∨
      ∃ block, Answered iterate now (arrived actions) block ∧ taken w.life <+: block ∧
        (Fin w.life → taken w.life = block) := by
  obtain ⟨blocks, wire, history⟩ := (runInv ok).served
  rw [runArrived ok] at history
  have delivered := wireDelivered wire
  have front := delivered.front intact
  have finished := delivered.finished intact
  -- a block that does not close would have to be there before a second one
  have none_ (block : Bytes) (member : block ∈ blocks.dropLast) : False :=
    absurd (responseAnswered order short (history.kept block member)).1 (by simp)
  rcases blocks with _ | ⟨block, rest⟩
  · exact .inl ⟨List.prefix_nil.mp front, fun fin => delivered.some_ fin rfl⟩
  · cases rest with
    | nil =>
      obtain ⟨close, response⟩ := history.owed block List.mem_cons_self
      simp only [List.flatten_cons, List.flatten_nil, List.append_nil] at front finished
      exact .inr ⟨block, (responseAnswered order short response).2, front, finished⟩
    | cons next more => exact absurd (none_ block (by simp [List.dropLast])) id

def hello : Bytes := ascii "GET /hello HTTP/1.1\r\n\r\n"

def twoRequests : List (Action Answer) :=
  [.arrives hello, .event ⟨{ epollin := true }, .got 100, ⟨⟨5⟩, .wrote 0, .wrote 40⟩, .wrote 0⟩,
    .arrives hello, .event ⟨{ epollin := true, epollout := true }, .got 100, ⟨⟨6⟩, .wrote 0, .wrote 9⟩, .wrote 53⟩]

theorem demoAnswersOnceSample :
    ∃ w block, run (step (onMessage (onRequest id fun _ => []))) (start 5 false false 64) twoRequests = some w ∧
      taken w.life = block ∧ block.length = 93 ∧ Answered id (fun _ => []) (hello ++ hello) block := by
  have end_ : (run (step (onMessage (onRequest id fun _ => []))) (start 5 false false 64) twoRequests).map
      (fun w => ((effectsOf w.life.trace).filter (fun e => e = .writeFailed .epipe ∨ e = .writeFailed .econnreset),
        decide (Fin w.life), (taken w.life).length)) = some ([], true, 93) := by
    decide +kernel
  obtain ⟨w, ok, last⟩ := Option.map_eq_some_iff.mp end_
  simp only [Prod.mk.injEq, List.filter_eq_nil_iff, decide_eq_true_eq] at last
  obtain ⟨safe, fin, length⟩ := last
  have intact : Intact w.life := by
    rintro (broken | broken)
    · exact safe _ broken (.inl rfl)
    · exact safe _ broken (.inr rfl)
  have order (headers : List (Bytes × Bytes)) : (id headers).Perm headers := .refl _
  have arrivals : arrived twoRequests = hello ++ hello := by simp [twoRequests, arrived]
  rcases demoAnswersOnce order (by simp) ok intact with ⟨_, unfinished⟩ | ⟨block, answered, _, finished⟩
  · exact absurd fin unfinished
  · have same := finished fin
    exact ⟨w, block, ok, same, same ▸ length, arrivals ▸ answered⟩

end TinyNetwork.HttpDemo
