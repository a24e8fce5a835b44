import StellarGate.Config
import StellarGate.Db.Statements

/-! One `POST /payments` request (`create` in `src/api/payments.rs`), a SQL statement a
step. -/
namespace StellarGate

structure AppError where
  status : ℕ
  code : String
  message : String
  deriving DecidableEq, Repr

namespace AppError

def badRequest (code message : String) : AppError := ⟨400, code, message⟩

/-- `From<anyhow::Error>`: what an error of a statement becomes. -/
def internal : AppError := ⟨500, "internal_error", "internal server error"⟩

def memoGeneration : AppError := ⟨500, "internal_error", "memo generation failed"⟩

def idempotencyConflict : AppError :=
  ⟨500, "idempotency_conflict", "concurrent request conflict, please retry"⟩

end AppError

/-- An authenticated request whose body has been decoded. `targetSafe` is the answer of
`ssrf::validate` to its `webhook_url`. -/
structure CreateRequest where
  merchantId : String
  idempotencyKey : Option String
  amount : String
  asset : Option String
  webhookUrl : Option String
  targetSafe : Bool
  deriving DecidableEq, Repr

inductive CreateResponse where
  | shown (status : ℕ) (payment : Payment)
  | failed (error : AppError)
  deriving DecidableEq, Repr

/-- The statement a request runs next, with the locals it still uses. `tries` counts the
rounds a retry loop has left. -/
inductive CreatePc where
  | lookup (key : String)
  | getExisting (key existingId : String)
  | deleteStale (key : String)
  | mint (key : Option String)
  | saveKey (key id : String)
  | rereadKey (key id : String)
  | waitWinner (canonicalId : String) (tries : ℕ)
  | memo (id : String) (tries : ℕ)
  | insert (id memo : String)
  | reread (id : String)
  | done (response : CreateResponse)
  deriving DecidableEq, Repr

namespace Create

def assetCode (env : Env) (req : CreateRequest) : String :=
  env.toUppercase (req.asset.getD "XLM")

def acceptedAsset (env : Env) (req : CreateRequest) : Except AppError AcceptedAsset :=
  let asset := assetCode env req
  let accepted := env.config.acceptedAssets
  match accepted.filter (·.code = asset) with
  | [] => .error (.badRequest "unsupported_asset"
      ("unsupported asset '" ++ req.asset.getD "XLM" ++ "'; supported: " ++
        ", ".intercalate (accepted.map (·.code))))
  | [one] => .ok one
  | _ => .error (.badRequest "ambiguous_asset"
      ("asset '" ++ asset ++ "' maps to more than one issuer; pin ACCEPTED_ASSETS to a " ++
        "single issuer per code"))

/-- `{:?}` of a list of plain words. -/
def debugWords (words : List String) : String :=
  "[" ++ ", ".intercalate (words.map fun w => "\"" ++ w ++ "\"") ++ "]"

/-- The checks on `webhook_url`. -/
def checkWebhookUrl (env : Env) (req : CreateRequest) (url : String) : Except AppError Unit :=
  if 2048 < url.utf8ByteSize then
    .error (.badRequest "invalid_webhook_url" "webhook_url exceeds max length of 2048 characters")
  else
    match env.urlScheme url with
    | none => .error (.badRequest "invalid_webhook_url" "webhook_url is not a valid URL")
    | some scheme =>
      if !env.config.allowedWebhookSchemes.contains scheme then
        .error (.badRequest "invalid_webhook_url" ("webhook_url scheme '" ++ scheme ++
          "' not allowed. Allowed schemes: " ++ debugWords env.config.allowedWebhookSchemes))
      else if env.config.network = "public" ∧ scheme ≠ "https" then
        .error (.badRequest "invalid_webhook_url"
          "webhook_url must be an HTTPS URL on public network")
      else if !req.targetSafe then
        .error (.badRequest "invalid_webhook_url"
          ("webhook_url must be a reachable http(s) URL that does not resolve to a " ++
            "loopback, link-local, private, or other reserved address"))
      else .ok ()

/-- Everything `create` checks before it touches the database. -/
def validate (env : Env) (req : CreateRequest) : Except AppError AcceptedAsset :=
  match acceptedAsset env req with
  | .error e => .error e
  | .ok asset =>
    if !isValidAmount req.amount then
      .error (.badRequest "invalid_amount"
        "amount must be a positive number with at most 7 decimal places")
    else
      match req.webhookUrl with
      | none => .ok asset
      | some url =>
        match checkWebhookUrl env req url with
        | .error e => .error e
        | .ok () => .ok asset

/-- The `Idempotency-Key` header, trimmed; an empty value counts as absent. -/
def key (req : CreateRequest) : Option String :=
  (req.idempotencyKey.map fun k => String.ofList (trim k.toList)).filter (· ≠ "")

def start (env : Env) (req : CreateRequest) : CreatePc :=
  match validate env req with
  | .error e => .done (.failed e)
  | .ok _ =>
    match key req with
    | none => .mint none
    | some k => .lookup k

/-- The eight upper-case hex digits a memo takes from a UUID. -/
def memoOf (uuid : String) : String :=
  String.ofList (((uuid.toList.filter (· ≠ '-')).take 8).map Char.toUpper)

def newPayment (env : Env) (req : CreateRequest) (id memo : String) : Db.NewPayment :=
  { id, memo
    merchantId := req.merchantId
    destinationAddress := env.config.gatewayPublic
    amount := req.amount
    asset := assetCode env req
    assetIssuer := (acceptedAsset env req).toOption.bind (·.issuer)
    webhookUrl := req.webhookUrl
    ttlSecs := env.ttlSecs }

def step (env : Env) (now : ℤ) (r : Reply) (req : CreateRequest) : CreatePc → Db → CreatePc × Db
  | .lookup key, db =>
    match db.findPaymentIdByIdempotencyKey req.merchantId key with
    | none => (.mint (some key), db)
    | some existingId => (.getExisting key existingId, db)
  | .getExisting key existingId, db =>
    match db.getPayment existingId with
    | some payment => (.done (.shown 200 payment), db)
    | none => (.deleteStale key, db)
  | .deleteStale key, db => (.mint (some key), db.deleteIdempotencyKey req.merchantId key)
  | .mint none, db => (.memo r.uuid 10, db)
  | .mint (some key), db => (.saveKey key r.uuid, db)
  | .saveKey key id, db => (.rereadKey key id, db.insertIdempotencyKey now req.merchantId key id)
  | .rereadKey key id, db =>
    let canonicalId := (db.findPaymentIdByIdempotencyKey req.merchantId key).getD id
    (if canonicalId ≠ id then .waitWinner canonicalId 50 else .memo id 10, db)
  | .waitWinner canonicalId tries, db =>
    match db.getPayment canonicalId with
    | some payment => (.done (.shown 200 payment), db)
    | none =>
      (if tries ≤ 1 then .done (.failed .idempotencyConflict)
        else .waitWinner canonicalId (tries - 1), db)
  | .memo id tries, db =>
    let memo := memoOf r.uuid
    (if !db.memoExists memo then .insert id memo
      else if tries ≤ 1 then .done (.failed .memoGeneration)
      else .memo id (tries - 1), db)
  | .insert id memo, db =>
    match db.insertPayment now (newPayment env req id memo) with
    | none => (.done (.failed .internal), db)
    | some db' => (.reread id, db')
  | .reread id, db =>
    match db.getPayment id with
    | some payment => (.done (.shown 201 payment), db)
    | none => (.done (.failed .internal), db)
  | .done response, db => (.done response, db)

def fail : CreatePc → CreatePc
  | .mint key => .mint key
  | .done response => .done response
  | _ => .done (.failed .internal)

end Create
end StellarGate
