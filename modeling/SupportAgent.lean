import SupportAgent.Admin.DocumentsPage
import SupportAgent.Admin.Middleware
import SupportAgent.Admin.Playground
import SupportAgent.Admin.Redirect
import SupportAgent.Chat.Citations
import SupportAgent.Chat.Fences
import SupportAgent.Chat.Gate
import SupportAgent.Chat.Protocol
import SupportAgent.Chat.Snippets
import SupportAgent.Chat.SpecialTokens
import SupportAgent.Chat.Sse
import SupportAgent.Chat.Wire
import SupportAgent.Documents.Events
import SupportAgent.Ingestion.Chunking.Carry
import SupportAgent.Ingestion.Chunking.Pages
import SupportAgent.Ingestion.Chunking.Sizes
import SupportAgent.Ingestion.Parsing.Escaping
import SupportAgent.Ingestion.Parsing.Headings
import SupportAgent.Ingestion.Parsing.Html
import SupportAgent.Ingestion.Parsing.Pdf
import SupportAgent.Ingestion.Parsing.Text
import SupportAgent.Machinery.Json.Parse
import SupportAgent.Machinery.Sequential
import SupportAgent.Mobile.ChatRepository
import SupportAgent.Mobile.StaleErrors
import SupportAgent.Providers.OpenAIEmbedder
import SupportAgent.RateLimit.Refinement
import SupportAgent.Routes.Allowlist
import SupportAgent.Store.Saves
import SupportAgent.System.Accounts
import SupportAgent.System.ApiKeys
import SupportAgent.System.Consistency
import SupportAgent.System.Conversation
import SupportAgent.System.FirstClaim
import SupportAgent.System.Isolation
import SupportAgent.System.Lifecycle
import SupportAgent.System.Ready
import SupportAgent.System.Reconcile
import SupportAgent.System.Retrievable
import SupportAgent.System.Signup
import SupportAgent.System.Tuning
import SupportAgent.Worker.Embedding
import SupportAgent.Worker.Resume
