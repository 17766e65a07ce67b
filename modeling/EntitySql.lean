import EntitySql.Entity.Catalog
import EntitySql.Proofs.ClauseCall
import EntitySql.Proofs.Condition.Filter
import EntitySql.Proofs.Operations
import EntitySql.Proofs.PageRows
import EntitySql.Store.Connection
import EntitySql.Work.Transaction
import EntitySql.Proofs.SharedWork
import EntitySql.Proofs.Answers
import EntitySql.Proofs.Template
import EntitySql.Proofs.Masking
import EntitySql.Proofs.Requests
import EntitySql.Proofs.ColumnFields
import EntitySql.Proofs.ClauseAnswer
import EntitySql.Proofs.Spelling
import EntitySql.Proofs.Exports
import EntitySql.Proofs.Slots.Scan
import EntitySql.Proofs.Slots.Clause
import EntitySql.Proofs.Slots.Select
import EntitySql.Proofs.Slots.Statement
import EntitySql.Proofs.Drafts
import EntitySql.Proofs.SelectAnswers
import EntitySql.Proofs.Reading.Words
import EntitySql.Proofs.Reading.Clauses
import EntitySql.Proofs.Reading.Select
import EntitySql.Proofs.Reading.Filter
import EntitySql.Proofs.Reading.Statement
import EntitySql.Proofs.CountedPages
import EntitySql.Proofs.QueueNames
import EntitySql.Proofs.TableNames
import EntitySql.Proofs.SendOrder
import EntitySql.Proofs.LikePattern
import EntitySql.Proofs.Conversions
import EntitySql.Proofs.FailedCalls
import EntitySql.Proofs.Arithmetic.Operand
import EntitySql.Proofs.ResultRows
import EntitySql.Proofs.EntityCells
import EntitySql.Proofs.Restriction
import EntitySql.Proofs.RowBounds
import EntitySql.Proofs.PageTiles
import EntitySql.Proofs.PageOrder
import EntitySql.Proofs.PageRefusals
import EntitySql.Proofs.FirstPage
import EntitySql.Proofs.Acceptance
import EntitySql.Proofs.Leaves
import EntitySql.Proofs.PartialUpdates
import EntitySql.Proofs.Faults
import EntitySql.Proofs.RandomLists
import EntitySql.Proofs.StoredValues
import EntitySql.Proofs.PoolEngine
import EntitySql.Proofs.ConnectionPool
import EntitySql.Proofs.Transactions
import EntitySql.Proofs.QueueTargets
import EntitySql.Proofs.Publication
import EntitySql.Proofs.StoredRows
import EntitySql.Proofs.TextStack
import EntitySql.Proofs.Resolution
